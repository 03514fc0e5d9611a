/-
Values are read for what they were written for: numbers, texts, lists, sets and
maps, records by the names of their fields (`fields?_record`) and records that name
their kind (`tagged?_record`). A tagged value is only read if every part of it has
a meaning; what is written has (`isSound_record` and the like).
-/
import Mathlib.Algebra.Group.Int.Defs
import Mathlib.Algebra.Group.Nat.Defs
import EventScript.Json.Access
import EventScript.Proofs.Spelling

namespace EventScript.Json

/-! ## Plain values -/

@[simp] theorem text?_ofText (text : String) : text? (ofText text) = some text :=
  unescape?_escape text

@[simp] theorem choice?_ofText {α : Type} (find : String → Option α) (id : String) :
    choice? find (ofText id) = find id := by
  rw [ofText, choice?, unescape?_escape, Option.bind_some]

theorem intIn?_ofInt {low high n : Int} (range : low ≤ n ∧ n < high) :
    intIn? low high (ofInt n) = some n := by
  cases n with
  | ofNat n =>
    rw [ofInt, ofNat, intIn?, Numeral.ofSpelling?_decimal]
    simp only [Option.bind_eq_bind, Option.bind_some, Numeral.int?_ofDigits]
    exact if_pos range
  | negSucc n =>
    rw [ofInt, intIn?, Numeral.ofSpelling?_minus]
    simp only [Option.bind_eq_bind, Option.bind_some, Numeral.int?_minus (n + 1) (by omega)]
    exact if_pos range

theorem nat?_ofNat {bits n : Nat} (small : n < 2 ^ bits) : nat? bits (ofNat n) = some n := by
  have range : (0 : Int) ≤ (n : Int) ∧ (n : Int) < (Nat.pow 2 bits : Nat) :=
    ⟨Int.natCast_nonneg n, Int.ofNat_lt.mpr small⟩
  rw [nat?, show ofNat n = ofInt n from rfl, intIn?_ofInt range]
  rfl

theorem int64?_ofInt {n : Int} (range : -2 ^ 63 ≤ n ∧ n < 2 ^ 63) : int64? (ofInt n) = some n :=
  intIn?_ofInt range

theorem escapeChar_of_isDigit {c : Char} (digit : c.isDigit = true) : escapeChar c = [c] := by
  have apart : ['"', '\\', '\x08', '\x0c', '\n', '\r', '\t'].any Char.isDigit = false := rfl
  have other : ∀ d ∈ ['"', '\\', '\x08', '\x0c', '\n', '\r', '\t'], c ≠ d :=
    fun d mem eq => List.any_eq_false.mp apart d mem (eq ▸ digit)
  simp only [List.forall_mem_cons] at other
  have visible : ¬ c.toNat < 0x20 := by
    have low : '0' ≤ c ∧ c ≤ '9' := by simpa [Char.isDigit, Char.le_def] using digit
    have least : '0'.toNat ≤ c.toNat := low.1
    have zero : '0'.toNat = 48 := rfl
    omega
  simp [escapeChar, other, visible]

/-- Digits stand for themselves, so a number is also read where a name stands. -/
theorem nameNat?_decimal {bits n : Nat} (small : n < 2 ^ bits) :
    nameNat? bits (escape (Text.decimal n)) = some n := by
  have plain : ∀ {digits : List Char}, (∀ c ∈ digits, c.isDigit = true) →
      digits.flatMap escapeChar = digits := by
    intro digits all
    induction digits with
    | nil => rfl
    | cons c rest ih =>
      obtain ⟨first, others⟩ := List.forall_mem_cons.mp all
      have alone : escapeChar c = [c] := escapeChar_of_isDigit first
      rw [List.flatMap_cons, alone, ih others]
      rfl
  have same : escape (Text.decimal n) = (Text.decimal n).toList := by
    rw [escape, Text.decimal, String.toList_ofList]
    exact plain (isDigit_decimal n)
  rw [nameNat?, same]
  exact nat?_ofNat small

/-! ## Lists, sets and maps -/

theorem mapM_map {α β γ : Type} {write : α → β} {read : β → Option γ} {f : α → γ} {items : List α}
    (h : ∀ a ∈ items, read (write a) = some (f a)) :
    (items.map write).mapM read = some (items.map f) := by
  induction items with
  | nil => rfl
  | cons a rest ih =>
    obtain ⟨first, others⟩ := List.forall_mem_cons.mp h
    rw [List.map_cons, List.mapM_cons, first, ih others]
    rfl

theorem list?_ofList {α β : Type} {write : α → Json} {read : Json → Option β} {f : α → β}
    {items : List α} (h : ∀ a ∈ items, read (write a) = some (f a)) :
    list? read (ofList write items) = some (items.map f) :=
  mapM_map h

theorem list?_ofList_self {α : Type} {write : α → Json} {read : Json → Option α} {items : List α}
    (h : ∀ a ∈ items, read (write a) = some a) : list? read (ofList write items) = some items := by
  have mapped := list?_ofList (f := id) h
  rwa [List.map_id] at mapped

theorem set?_ofList {bits : Nat} {addresses : Std.ExtTreeSet Nat}
    (small : ∀ a ∈ addresses, a < 2 ^ bits) :
    set? (nat? bits) (ofList ofNat addresses.toList) = some addresses := by
  rw [set?, list?_ofList_self fun a mem => nat?_ofNat (small a (Std.ExtTreeSet.mem_toList.mp mem))]
  refine congrArg some (Std.ExtTreeSet.ext_mem fun a => ?_)
  rw [Std.ExtTreeSet.mem_ofList, List.contains_iff_mem, Std.ExtTreeSet.mem_toList]

theorem pairs?_record {κ α : Type} {readName : List Char → Option κ} {read : Json → Option α}
    {writeName : κ → String} {write : α → Json} {pairs : List (κ × α)}
    (names : ∀ p ∈ pairs, readName (escape (writeName p.1)) = some p.1)
    (values : ∀ p ∈ pairs, read (write p.2) = some p.2) :
    pairs? readName read (record (pairs.map fun (k, a) => (writeName k, write a))) =
      some pairs := by
  rw [record, List.map_map, pairs?]
  refine (mapM_map (f := id) fun p mem => ?_).trans (by rw [List.map_id])
  obtain ⟨k, a⟩ := p
  have key := names _ mem
  have value := values _ mem
  simp only at key value
  simp [key, value]

/-- A map is made again of its pairs. -/
theorem ofList_toList {κ α : Type} [DecidableEq κ] [Ord κ] [Std.TransOrd κ] [Std.LawfulEqOrd κ]
    (map : Std.ExtTreeMap κ α) : Std.ExtTreeMap.ofList map.toList = map := by
  refine Std.ExtTreeMap.ext_getElem? fun key => ?_
  cases found : map[key]? with
  | some value =>
    exact Std.ExtTreeMap.getElem?_ofList_of_mem Std.ReflCmp.compare_self
      Std.ExtTreeMap.distinct_keys_toList (Std.ExtTreeMap.mem_toList_iff_getElem?_eq_some.mpr found)
  | none =>
    refine Std.ExtTreeMap.getElem?_ofList_of_contains_eq_false ?_
    rw [List.contains_eq_mem, decide_eq_false_iff_not]
    intro mem
    obtain ⟨⟨_, value⟩, listed, rfl⟩ := List.mem_map.mp mem
    rw [Std.ExtTreeMap.mem_toList_iff_getElem?_eq_some.mp listed] at found
    cases found

/-! ## Records -/

theorem mapM_unescape? (fields : List (String × Json)) :
    (fields.map fun (name, value) => (escape name, value)).mapM
      (fun (name, value) => (unescape? name).map fun name => (name, value)) = some fields := by
  refine (mapM_map (f := id) fun p mem => ?_).trans (by rw [List.map_id])
  obtain ⟨name, value⟩ := p
  simp

theorem fields?_record {fields : List (String × Json)} (distinct : (fields.map (·.1)).Nodup)
    (names : List String) : fields? names (record fields) = some ⟨fields, false⟩ := by
  have once : (names.all fun name => (fields.map (·.1)).count name ≤ 1) = true := by
    simp only [List.all_eq_true, decide_eq_true_eq]
    exact fun name _ => List.nodup_iff_count.mp distinct name
  rw [record, fields?, mapM_unescape?]
  simp only [Option.bind_eq_bind, Option.bind_some, once, if_true]

section Reading

variable {α : Type} {name other : String} {rest : List (String × Json)} {positional : Bool}
  {read : Json → Option α}

/-- A field is read where it stands first. -/
@[simp] theorem required_self (value : Json) :
    Fields.required ⟨(name, value) :: rest, positional⟩ name read = read value := by
  rw [Fields.required, List.lookup_cons_self, Option.bind_some]

/-- Fields of other names are passed over. -/
@[simp] theorem required_other (ne : name ≠ other) (value : Json) :
    Fields.required ⟨(other, value) :: rest, positional⟩ name read =
      Fields.required ⟨rest, positional⟩ name read := by
  rw [Fields.required, Fields.required, List.lookup_cons, beq_eq_false_iff_ne.mpr ne]

@[simp] theorem nullable_other (ne : name ≠ other) (value : Json) :
    Fields.nullable ⟨(other, value) :: rest, positional⟩ name read =
      Fields.nullable ⟨rest, positional⟩ name read := by
  rw [Fields.nullable, Fields.nullable, List.lookup_cons, beq_eq_false_iff_ne.mpr ne]

@[simp] theorem defaulted_self (value : Json) (default : α) :
    Fields.defaulted ⟨(name, value) :: rest, positional⟩ name read default = read value := by
  rw [Fields.defaulted, List.lookup_cons_self]

@[simp] theorem defaulted_other (ne : name ≠ other) (value : Json) (default : α) :
    Fields.defaulted ⟨(other, value) :: rest, positional⟩ name read default =
      Fields.defaulted ⟨rest, positional⟩ name read default := by
  rw [Fields.defaulted, Fields.defaulted, List.lookup_cons, beq_eq_false_iff_ne.mpr ne]

/-- What may be missing is read back, unless it is written as what is missing is. -/
theorem nullable_self {write : α → Json} {optional : Option α}
    (h : ∀ a ∈ optional, read (write a) = some a) (present : ∀ a, write a ≠ .null) :
    Fields.nullable ⟨(name, ofOption write optional) :: rest, positional⟩ name read =
      some optional := by
  rw [Fields.nullable, List.lookup_cons_self]
  cases optional with
  | none => rfl
  | some a =>
    rw [ofOption]
    split
    · contradiction
    · rename_i eq
      exact absurd (Option.some.inj eq) (present a)
    · rename_i eq
      cases eq
      rw [h a rfl, Option.map_some]

end Reading

/-! ## Parts with a meaning -/

theorem areSound_iff {room : Nat} {items : List Json} :
    areSound room items = true ↔ ∀ item ∈ items, item.isSound room = true := by
  induction items with
  | nil => simp [areSound]
  | cons item rest ih => rw [areSound, Bool.and_eq_true, ih, List.forall_mem_cons]

@[simp] theorem isSound_ofText (text : String) (room : Nat) :
    (ofText text).isSound room = true := by
  simp [ofText, isSound]

theorem isSound_ofNat {n : Nat} (small : n < 2 ^ 64) (room : Nat) :
    (ofNat n).isSound room = true := by
  rw [ofNat, isSound, Numeral.ofSpelling?_decimal, Option.any_some]
  exact Numeral.isFinite_ofDigits false small

theorem isSound_ofNat32 {n : Nat} (small : n < 2 ^ 32) (room : Nat) :
    (ofNat n).isSound room = true :=
  isSound_ofNat (Nat.lt_trans small (by decide)) room

theorem isSound_ofInt {n : Int} (range : -2 ^ 63 ≤ n ∧ n < 2 ^ 63) (room : Nat) :
    (ofInt n).isSound room = true := by
  cases n with
  | ofNat n =>
    have small : (n : Int) < 2 ^ 63 := range.2
    exact isSound_ofNat (by omega) room
  | negSucc n =>
    rw [ofInt, isSound, Numeral.ofSpelling?_minus, Option.any_some]
    exact Numeral.isFinite_ofDigits true (by rw [Double.significandBound]; omega)

theorem isSound_ofOption {α : Type} {write : α → Json} {optional : Option α} {room : Nat}
    (h : ∀ a ∈ optional, (write a).isSound room = true) :
    (ofOption write optional).isSound room = true := by
  cases optional with
  | none => rw [ofOption, isSound]
  | some a => exact h a rfl

theorem isSound_ofList {α : Type} {write : α → Json} {items : List α} {room : Nat}
    (h : ∀ a ∈ items, (write a).isSound room = true) :
    (ofList write items).isSound (room + 1) = true := by
  rw [ofList, isSound, Bool.and_eq_true, areSound_iff, List.forall_mem_map]
  exact ⟨decide_eq_true (Nat.succ_pos room), h⟩

theorem fieldsAreSound_escape {fields : List (String × Json)} {room : Nat}
    (h : ∀ field ∈ fields, field.2.isSound room = true) :
    fieldsAreSound room (fields.map fun (name, value) => (escape name, value)) = true := by
  induction fields with
  | nil => rfl
  | cons field rest ih =>
    obtain ⟨first, others⟩ := List.forall_mem_cons.mp h
    rw [List.map_cons, fieldsAreSound, unescape?_escape, first, ih others]
    rfl

theorem isSound_record {fields : List (String × Json)} {room : Nat}
    (h : ∀ field ∈ fields, field.2.isSound room = true) :
    (record fields).isSound (room + 1) = true := by
  rw [record, isSound, Bool.and_eq_true]
  exact ⟨decide_eq_true (Nat.succ_pos room), fieldsAreSound_escape h⟩

/-! ## Tagged values -/

theorem unescape?_ne_tagName {rest : List (String × Json)}
    (other : ∀ field ∈ rest, field.1 ≠ tagName) :
    ∀ field ∈ rest.map fun (name, value) => (escape name, value),
      unescape? field.1 ≠ some tagName := by
  intro field mem
  obtain ⟨⟨name, value⟩, listed, rfl⟩ := List.mem_map.mp mem
  rw [unescape?_escape]
  exact fun eq => other _ listed (Option.some.inj eq)

/-- The kind is read off a tagged value, and the record of the other fields is left. -/
theorem tagged?_record {kind : String} {rest : List (String × Json)} {room : Nat}
    (sound : (record ((tagName, ofText kind) :: rest)).isSound room = true)
    (other : ∀ field ∈ rest, field.1 ≠ tagName) :
    tagged? room (record ((tagName, ofText kind) :: rest)) = some (kind, record rest) := by
  have untagged := unescape?_ne_tagName other
  rw [tagged?.eq_def, if_pos sound, record, List.map_cons]
  simp only [List.partition_eq_filter_filter, List.filter_cons]
  rw [List.filter_eq_nil_iff.mpr fun field mem => by simpa using untagged field mem,
    List.filter_eq_self.mpr fun field mem => by simpa using untagged field mem]
  simp [record]

end EventScript.Json
