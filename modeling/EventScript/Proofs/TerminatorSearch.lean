/-
The search for a terminator. It goes over half-words, and stops at the end of its
room, at the end of the image and at the first slot that is claimed. It finds the
first terminator in that run (`findTerminator_isLeast`), which is what a search for
the two bytes of the sentinel finds that leaves out odd places (`searchBytes_eq`),
and it is where a text that is read there ends (`findTerminator_agrees`).
-/
import Mathlib.Order.Bounds.Basic
import Mathlib.Order.Nat
import EventScript.Proofs.Codecs
import EventScript.Proofs.InRange

namespace EventScript

/-! ## Half-words and their bytes -/

/-- The two codes of a word, the low one first. -/
def Word.halves (word : Word) : List UInt16 := [word.low, word.high]

/-- The two bytes of a code, the low one first. -/
def codeBytes (code : UInt16) : List UInt8 := [code.toUInt8, (code >>> 8).toUInt8]

theorem toBytes_eq_halves (word : Word) : word.toBytes = word.halves.flatMap codeBytes := by
  have := word.toNat_lt
  apply List.map_injective_iff.mpr fun _ _ => UInt8.toNat_inj.mp
  simp only [Word.map_toNat_toBytes, Word.halves, codeBytes, Word.low, Word.high,
    List.flatMap_cons, List.flatMap_nil, List.cons_append, List.nil_append, List.map,
    UInt16.toNat_toUInt8, UInt16.toNat_shiftRight, UInt16.toNat_ofNat, UInt32.toNat_toUInt16,
    UInt32.toNat_shiftRight, UInt32.toNat_ofNat, Nat.shiftRight_eq_div_pow, Nat.reduceMod,
    Nat.reducePow, List.cons.injEq, and_true]
  omega

theorem codeBytes_injective {a b : UInt16} (h : codeBytes a = codeBytes b) : a = b := by
  simp only [codeBytes, List.cons.injEq, and_true] at h
  obtain ⟨low, high⟩ := h
  have low := congrArg UInt8.toNat low
  have high := congrArg UInt8.toNat high
  simp only [UInt16.toNat_toUInt8, UInt16.toNat_shiftRight, UInt16.toNat_ofNat, Nat.reduceMod,
    Nat.shiftRight_eq_div_pow, Nat.reducePow] at low high
  have := a.toNat_lt
  have := b.toNat_lt
  exact UInt16.toNat_inj.mp (by omega)

theorem flatMap_toBytes (words : List Word) :
    words.flatMap Word.toBytes = (words.flatMap Word.halves).flatMap codeBytes := by
  rw [List.flatMap_assoc]
  exact List.flatMap_congr fun word _ => toBytes_eq_halves word

theorem drop_codeBytes (codes : List UInt16) (k : Nat) :
    (codes.flatMap codeBytes).drop (2 * k) = (codes.drop k).flatMap codeBytes := by
  induction k generalizing codes with
  | zero => rfl
  | succ k ih =>
    cases codes with
    | nil => simp
    | cons code rest => exact ih rest

/-- The bytes of a code stand at an even place just if the code does. -/
theorem codeBytes_isPrefix_iff (codes : List UInt16) (code : UInt16) (k : Nat) :
    codeBytes code <+: (codes.flatMap codeBytes).drop (2 * k) ↔ codes[k]? = some code := by
  rw [drop_codeBytes, ← List.head?_drop]
  cases codes.drop k with
  | nil => simp [codeBytes]
  | cons first rest =>
    rw [List.flatMap_cons, List.head?_cons, Option.some.injEq, codeBytes, codeBytes]
    constructor
    · intro h
      refine (codeBytes_injective ?_).symm
      simpa [codeBytes, and_assoc] using h
    · rintro rfl
      exact List.prefix_append _ _

theorem getElem?_halves (words : List Word) (k : Nat) :
    (words.flatMap Word.halves)[k]? =
      words[k / 2]?.map fun word => if k % 2 = 0 then word.low else word.high := by
  induction words generalizing k with
  | nil => rfl
  | cons word rest ih =>
    match k with
    | 0 => rfl
    | 1 => rfl
    | k + 2 =>
      rw [show (k + 2) / 2 = k / 2 + 1 by omega, List.getElem?_cons_succ, Nat.add_mod_right]
      exact ih k

/-! ## Occurrences -/

/-- The occurrences of a run of bytes from a place on, as a search that goes from left
to right reports them: none of them overlaps the one before it. -/
inductive Occurrences (needle haystack : List UInt8) : (start : Nat) → List Nat → Prop
  | none {start : Nat} (rest : ∀ n, start ≤ n → ¬ needle <+: haystack.drop n) :
      Occurrences needle haystack start []
  | next {start n : Nat} {later : List Nat} (behind : start ≤ n)
      (there : needle <+: haystack.drop n)
      (first : ∀ m, start ≤ m → m < n → ¬ needle <+: haystack.drop m) :
      Occurrences needle haystack (n + needle.length) later →
      Occurrences needle haystack start (n :: later)

namespace Occurrences

variable {needle haystack : List UInt8} {start : Nat} {found : List Nat}

theorem le_of_mem (h : Occurrences needle haystack start found) {n : Nat} (mem : n ∈ found) :
    start ≤ n := by
  induction h with
  | none => cases mem
  | next behind _ _ _ ih =>
    rcases List.mem_cons.mp mem with rfl | mem
    · exact behind
    · have := ih mem
      omega

theorem ascending (some : needle ≠ []) (h : Occurrences needle haystack start found) :
    found.Pairwise (· < ·) := by
  induction h with
  | none => exact .nil
  | next _ _ _ more ih =>
    refine .cons (fun n mem => ?_) ih
    have := more.le_of_mem mem
    have := List.length_pos_iff.mpr some
    omega

/-- Two different bytes cannot occur one byte behind where they occur, so that all
occurrences are reported. -/
theorem mem_iff {a b : UInt8} (differ : a ≠ b) (h : Occurrences [a, b] haystack start found)
    {n : Nat} : n ∈ found ↔ start ≤ n ∧ [a, b] <+: haystack.drop n := by
  induction h with
  | none rest =>
    exact ⟨fun mem => absurd mem List.not_mem_nil,
      fun ⟨behind, there⟩ => (rest n behind there).elim⟩
  | @next start m later behind there first _ ih =>
    rw [List.mem_cons, ih, List.length_cons, List.length_singleton]
    constructor
    · rintro (rfl | ⟨late, found⟩)
      · exact ⟨behind, there⟩
      · exact ⟨by omega, found⟩
    · rintro ⟨late, found⟩
      by_cases before : n < m
      · exact (first n late before found).elim
      by_cases same : n = m
      · exact .inl same
      refine .inr ⟨?_, found⟩
      refine Nat.lt_of_le_of_ne (by omega) fun overlap => ?_
      obtain ⟨rest, eq⟩ := there
      rw [← overlap, ← List.drop_drop, ← eq] at found
      simp only [List.cons_append, List.nil_append, List.drop_succ_cons, List.drop_zero,
        List.cons_prefix_cons] at found
      exact differ found.1

/-- A search may begin one byte earlier if there is no occurrence. -/
theorem earlier (h : Occurrences needle haystack (start + 1) found)
    (absent : ¬ needle <+: haystack.drop start) : Occurrences needle haystack start found := by
  have either : ∀ n, start ≤ n → (start + 1 ≤ n → ¬ needle <+: haystack.drop n) →
      ¬ needle <+: haystack.drop n := by
    intro n late others
    rcases Nat.eq_or_lt_of_le late with rfl | late
    · exact absent
    · exact others late
  cases h with
  | none rest => exact .none fun n late => either n late fun late => rest n late
  | next behind there first more =>
    exact .next (by omega) there
      (fun m late before => either m late fun late => first m late before) more

end Occurrences

/-- What a search for a run of bytes promises that reports all occurrences which do not
overlap. -/
def Reports (findIter : List UInt8 → List UInt8 → List Nat) : Prop :=
  ∀ haystack needle, needle ≠ [] → Occurrences needle haystack 0 (findIter haystack needle)

/-- The places at which a run of bytes occurs among those from `place` on, of which the
first `skip` belong to an occurrence. -/
def occurrencesFrom (needle : List UInt8) :
    (haystack : List UInt8) → (skip place : Nat) → List Nat
  | [], _, _ => []
  | _ :: rest, skip + 1, place => occurrencesFrom needle rest skip (place + 1)
  | byte :: rest, 0, place =>
    if needle <+: byte :: rest then
      place :: occurrencesFrom needle rest (needle.length - 1) (place + 1)
    else occurrencesFrom needle rest 0 (place + 1)

/-- The places at which a run of bytes occurs. -/
def occurrences (haystack needle : List UInt8) : List Nat := occurrencesFrom needle haystack 0 0

theorem occurrencesFrom_spec {needle whole haystack : List UInt8} {skip place : Nat}
    (some : needle ≠ []) (rest : whole.drop place = haystack) :
    Occurrences needle whole (place + skip) (occurrencesFrom needle haystack skip place) := by
  induction haystack generalizing skip place with
  | nil =>
    refine .none fun n late there => some (List.prefix_nil.mp ?_)
    rwa [List.drop_eq_nil_of_le] at there
    have := List.drop_eq_nil_iff.mp rest
    omega
  | cons byte others ih =>
    have behind : whole.drop (place + 1) = others := by
      rw [← List.drop_drop, rest, List.drop_succ_cons, List.drop_zero]
    cases skip with
    | succ skip =>
      rw [show place + (skip + 1) = place + 1 + skip by omega]
      exact ih behind
    | zero =>
      rw [occurrencesFrom, Nat.add_zero]
      have length := List.length_pos_iff.mpr some
      split
      · rename_i there
        refine .next (Nat.le_refl _) (rest ▸ there) (fun m _ _ => by omega) ?_
        rw [show place + needle.length = place + 1 + (needle.length - 1) by omega]
        exact ih behind
      · rename_i absent
        exact (@ih 0 _ behind).earlier (rest ▸ absent)

theorem reports_occurrences : Reports occurrences :=
  fun _ _ some => @occurrencesFrom_spec _ _ _ 0 0 some rfl

/-- The first number of an ascending list that passes a test is the least that does. -/
theorem find?_eq_some_iff_isLeast {numbers : List Nat} (ascending : numbers.Pairwise (· < ·))
    {test : Nat → Bool} {n : Nat} :
    numbers.find? test = some n ↔ IsLeast {m | m ∈ numbers ∧ test m = true} n := by
  induction ascending with
  | nil => simp [IsLeast]
  | @cons first rest before _ ih =>
    rw [List.find?_cons]
    cases passes : test first with
    | true =>
      have least : IsLeast {m | m ∈ first :: rest ∧ test m = true} first := by
        refine ⟨⟨List.mem_cons_self, passes⟩, fun m ⟨mem, _⟩ => ?_⟩
        rcases List.mem_cons.mp mem with rfl | mem
        · exact Nat.le_refl _
        · exact Nat.le_of_lt (before m mem)
      constructor
      · rintro ⟨⟩
        exact least
      · exact fun h => congrArg some (least.unique h)
    | false =>
      have others : {m | m ∈ first :: rest ∧ test m = true} = {m | m ∈ rest ∧ test m = true} := by
        ext m
        simp only [Set.mem_ofPred_eq, List.mem_cons]
        constructor
        · rintro ⟨rfl | mem, passed⟩
          · simp [passes] at passed
          · exact ⟨mem, passed⟩
        · exact fun ⟨mem, passed⟩ => ⟨.inr mem, passed⟩
      rw [others]
      exact ih

/-- The least of numbers that go by twos from a start on. -/
theorem isLeast_iff_half {holds half : Nat → Prop} {start : Nat}
    (even : ∀ {n}, holds n → ∃ k, n = start + 2 * k)
    (same : ∀ k, holds (start + 2 * k) ↔ half k) {n : Nat} :
    IsLeast {n | holds n} n ↔ ∃ k, n = start + 2 * k ∧ IsLeast {k | half k} k := by
  constructor
  · rintro ⟨there, least⟩
    obtain ⟨k, rfl⟩ := even there
    refine ⟨k, rfl, (same k).mp there, fun j holds => ?_⟩
    have : start + 2 * k ≤ start + 2 * j := least ((same j).mpr holds)
    omega
  · rintro ⟨k, rfl, there, least⟩
    refine ⟨(same k).mpr there, fun n holds => ?_⟩
    obtain ⟨j, rfl⟩ := even holds
    have : k ≤ j := least ((same j).mp holds)
    omega

/-! ## The run that is searched -/

namespace Likelihood

open Recovery

/-- A slot of the run of free slots from `start` on, of at most `room` slots of an image. -/
structure InRun (script : Script) (image : Image) (start room n : Nat) : Prop where
  behind : start ≤ n
  near : n < start + room
  inside : n < image.size
  free : ∀ k, start ≤ k → k ≤ n → script.entries[k]? = some .unset

/-- A terminator in the run of free slots at an address: a half-word at an even place that
is the sentinel. -/
structure Terminator (script : Script) (image : Image) (address room place : Nat) : Prop where
  even : place % 2 = 0
  run : InRun script image (address / 4) room (place / 4)
  code : image.halfAt 0 (place / 2) = sentinel

/-- The slot behind the run of free slots from `start` on. -/
def endOfRun (script : Script) (image : Image) (start room : Nat) : Nat :=
  Checked.firstClaimed script (min (start + room) image.size - start) start

/-- The words of the run of free slots from `start` on. -/
def wordsOfRun (script : Script) (image : Image) (start room : Nat) : List Word :=
  (image.extract start (endOfRun script image start room)).toList

variable {script : Script} {image : Image} {address start room : Nat}

theorem lt_firstClaimed_iff {cursor n : Nat} (behind : cursor ≤ n) :
    n < Checked.firstClaimed script room cursor ↔
      n < cursor + room ∧ ∀ k, cursor ≤ k → k ≤ n → script.entries[k]? = some .unset := by
  induction room generalizing cursor with
  | zero =>
    rw [Checked.firstClaimed]
    omega
  | succ room ih =>
    by_cases free : script.entries[cursor]? = some .unset
    · have step : Checked.firstClaimed script (room + 1) cursor =
          Checked.firstClaimed script room (cursor + 1) := by
        rw [Checked.firstClaimed, free]
      rw [step]
      rcases Nat.eq_or_lt_of_le behind with rfl | later
      · have := (firstClaimed_bounds script room (cursor + 1)).1
        refine ⟨fun _ => ⟨by omega, fun k low high => ?_⟩, fun _ => by omega⟩
        rwa [Nat.le_antisymm high low]
      · rw [ih later]
        refine and_congr (by omega) ⟨fun rest k low high => ?_, fun all k low => all k (by omega)⟩
        rcases Nat.eq_or_lt_of_le low with rfl | low
        · exact free
        · exact rest k low high
    · have stopped : Checked.firstClaimed script (room + 1) cursor = cursor := by
        rw [Checked.firstClaimed]
        split
        · rename_i unset
          exact (free unset).elim
        · rfl
      rw [stopped]
      exact ⟨fun low => by omega, fun all => (free (all.2 cursor (Nat.le_refl _) behind)).elim⟩

theorem inRun_iff {n : Nat} :
    InRun script image start room n ↔ start ≤ n ∧ n < endOfRun script image start room := by
  constructor
  · rintro ⟨behind, near, inside, free⟩
    exact ⟨behind, (lt_firstClaimed_iff behind).mpr ⟨by omega, free⟩⟩
  · rintro ⟨behind, before⟩
    obtain ⟨bound, free⟩ := (lt_firstClaimed_iff behind).mp before
    exact ⟨behind, by omega, by omega, free⟩

/-- The terminators are where the sentinel is among the half-words of the run. -/
theorem terminator_iff (aligned : address % 4 = 0) (k : Nat) :
    Terminator script image address room (address + 2 * k) ↔
      ((wordsOfRun script image (address / 4) room).flatMap Word.halves)[k]? =
        some sentinel := by
  have bounds := firstClaimed_bounds script (min (address / 4 + room) image.size - address / 4)
    (address / 4)
  rw [← endOfRun] at bounds
  have slot : (address + 2 * k) / 4 = address / 4 + k / 2 := by omega
  have run : InRun script image (address / 4) room ((address + 2 * k) / 4) ↔
      k / 2 < min (endOfRun script image (address / 4) room) image.size - address / 4 := by
    rw [inRun_iff, slot]
    omega
  have half : ∀ {word : Word}, image[address / 4 + k / 2]? = some word →
      image.halfAt 0 ((address + 2 * k) / 2) = if k % 2 = 0 then word.low else word.high := by
    intro word there
    rw [Image.halfAt, Image.wordAt, show (0 + 4 * ((address + 2 * k) / 2 / 2)) / 4 =
      address / 4 + k / 2 by omega, there, show (address + 2 * k) / 2 % 2 = k % 2 by omega]
    rfl
  rw [getElem?_halves, wordsOfRun, Array.getElem?_toList, Array.getElem?_extract]
  constructor
  · intro h
    have near := run.mp h.run
    have inside : address / 4 + k / 2 < image.size := by omega
    have there := Array.getElem?_eq_getElem inside
    rw [if_pos near, there, Option.map_some, ← half there, h.code]
  · intro h
    obtain ⟨word, there, code⟩ := Option.map_eq_some_iff.mp h
    obtain ⟨near, there⟩ := Option.ite_none_right_eq_some.mp there
    exact ⟨by omega, run.mpr near, (half there).trans code⟩

theorem Terminator.exists_half (aligned : address % 4 = 0) {place : Nat}
    (h : Terminator script image address room place) : ∃ k, place = address + 2 * k := by
  have := h.even
  have := h.run.behind
  exact ⟨(place - address) / 2, by omega⟩

theorem isLeast_terminator_iff (aligned : address % 4 = 0) {place : Nat} :
    IsLeast {place | Terminator script image address room place} place ↔
      ∃ k, place = address + 2 * k ∧
        IsLeast {k | ((wordsOfRun script image (address / 4) room).flatMap Word.halves)[k]? =
          some sentinel} k :=
  isLeast_iff_half (fun h => h.exists_half aligned) (terminator_iff aligned)

/-! ## The search -/

theorem terminatorOffset_eq (words : List Word) :
    Checked.terminatorOffset words =
      ((words.flatMap Word.halves).findIdx? (· == sentinel)).map (2 * ·) := by
  induction words with
  | nil => rfl
  | cons word rest ih =>
    rw [Checked.terminatorOffset, List.flatMap_cons, Word.halves, List.cons_append,
      List.cons_append, List.nil_append, List.findIdx?_cons, List.findIdx?_cons, ih]
    simp only [beq_iff_eq]
    by_cases low : word.low = sentinel
    · rw [if_pos low, if_pos low]
      rfl
    rw [if_neg low, if_neg low]
    by_cases high : word.high = sentinel
    · rw [if_pos high, if_pos high]
      rfl
    rw [if_neg high, if_neg high]
    simp only [Option.map_map]
    congr 1

theorem findIdx?_eq_some_iff_isLeast {codes : List UInt16} {code : UInt16} {k : Nat} :
    codes.findIdx? (· == code) = some k ↔ IsLeast {k | codes[k]? = some code} k := by
  rw [List.findIdx?_eq_some_iff_getElem]
  constructor
  · rintro ⟨bound, there, before⟩
    refine ⟨by simpa [List.getElem?_eq_getElem bound] using there, fun j found => ?_⟩
    obtain ⟨inside, eq⟩ := List.getElem?_eq_some_iff.mp found
    exact Nat.le_of_not_lt fun lt => before j lt (beq_iff_eq.mpr eq)
  · rintro ⟨there, least⟩
    obtain ⟨bound, eq⟩ := List.getElem?_eq_some_iff.mp there
    refine ⟨bound, beq_iff_eq.mpr eq, fun j before found => ?_⟩
    have : k ≤ j := least (List.getElem?_eq_some_iff.mpr ⟨by omega, beq_iff_eq.mp found⟩)
    omega

/-- The search finds the first terminator of the run, if it has one. -/
theorem findTerminator_isLeast (aligned : address % 4 = 0) {place : Nat} :
    findTerminator script image address room = some place ↔
      IsLeast {place | Terminator script image address room place} place := by
  rw [findTerminator, terminatorFrom_eq, ← endOfRun, ← wordsOfRun, terminatorOffset_eq,
    isLeast_terminator_iff aligned]
  simp only [Option.map_map, Option.map_eq_some_iff, findIdx?_eq_some_iff_isLeast,
    Function.comp_apply]
  exact exists_congr fun k => and_comm.trans (and_congr_left fun _ => by omega)

theorem findTerminator_eq_none_iff (aligned : address % 4 = 0) :
    findTerminator script image address room = none ↔
      ∀ place, ¬ Terminator script image address room place := by
  constructor
  · intro none place found
    classical
    have least := Nat.isLeast_find ⟨place, found⟩
    cases none.symm.trans ((findTerminator_isLeast aligned).mpr least)
  · intro empty
    cases found : findTerminator script image address room with
    | none => rfl
    | some place => exact (empty place ((findTerminator_isLeast aligned).mp found).1).elim

/-- The search in the bytes of the run: of the occurrences of the sentinel's two bytes
the first at an even place. -/
def searchBytes (findIter : List UInt8 → List UInt8 → List Nat) (script : Script) (image : Image)
    (address room : Nat) : Option Nat :=
  if endOfRun script image (address / 4) room ≤ address / 4 then none
  else
    let bytes := (wordsOfRun script image (address / 4) room).flatMap Word.toBytes
    ((findIter bytes (codeBytes sentinel)).find? (· % 2 = 0)).map (4 * (address / 4) + ·)

theorem searchBytes_eq {findIter : List UInt8 → List UInt8 → List Nat}
    (documented : Reports findIter) (aligned : address % 4 = 0) :
    searchBytes findIter script image address room = findTerminator script image address room := by
  rw [searchBytes]
  split
  · rename_i empty
    refine ((findTerminator_eq_none_iff aligned).mpr fun place found => ?_).symm
    obtain ⟨behind, before⟩ := inRun_iff.mp found.run
    omega
  have found := documented ((wordsOfRun script image (address / 4) room).flatMap Word.toBytes)
    (codeBytes sentinel) (by decide)
  have ascending := found.ascending (by decide)
  have reported := fun n => @Occurrences.mem_iff _ _ _ _ _ (by decide) found n
  rw [flatMap_toBytes] at found ascending reported ⊢
  refine Option.ext fun place => ?_
  rw [findTerminator_isLeast aligned, isLeast_terminator_iff aligned, Option.map_eq_some_iff]
  simp only [find?_eq_some_iff_isLeast ascending]
  generalize ((wordsOfRun script image (address / 4) room).flatMap Word.halves) = codes
    at reported ⊢
  generalize findIter (codes.flatMap codeBytes) (codeBytes sentinel) = places at reported ⊢
  -- A place counts if it is even, and the bytes there are those of a code.
  have halved : ∀ m, IsLeast {m | m ∈ places ∧ decide (m % 2 = 0) = true} m ↔
      ∃ k, m = 0 + 2 * k ∧ IsLeast {k | codes[k]? = some sentinel} k := by
    refine fun m => isLeast_iff_half ?_ fun k => ?_
    · rintro n ⟨-, even⟩
      have := of_decide_eq_true even
      exact ⟨n / 2, by omega⟩
    · have even : decide (2 * k % 2 = 0) = true := decide_eq_true (Nat.mul_mod_right 2 k)
      rw [reported, Nat.zero_add]
      simp only [even, Nat.zero_le, true_and, and_true]
      exact codeBytes_isPrefix_iff codes sentinel k
  constructor
  · rintro ⟨m, least, rfl⟩
    obtain ⟨k, rfl, first⟩ := (halved m).mp least
    exact ⟨k, by omega, first⟩
  · rintro ⟨k, rfl, least⟩
    exact ⟨0 + 2 * k, (halved _).mpr ⟨k, rfl, least⟩, by omega⟩

end Likelihood

namespace Recovery

open Likelihood

variable {script : Script} {image : Image} {address room : Nat} {codes : List UInt16}
  {terminated : Bool}

/-! ## The text that is read -/

/-- Room behind the end of the image is of no use. -/
theorem collectCodes_room {half : Nat} (more : Nat)
    (full : image.size ≤ (address + 4 * ((half + room) / 2)) / 4) :
    collectCodes image script address (room + more) half =
      collectCodes image script address room half := by
  induction room generalizing half with
  | zero =>
    cases more with
    | zero => rfl
    | succ more =>
      rw [Nat.zero_add, collectCodes_succ, if_pos (by simpa using full)]
      rfl
  | succ room ih =>
    rw [Nat.succ_add, collectCodes_succ, collectCodes_succ, ih (by rwa [Nat.succ_add_eq_add_succ])]

/-- The half-word at an even place behind an address, counted from the address. -/
theorem halfAt_behind (aligned : address % 4 = 0) (k : Nat) :
    image.halfAt 0 ((address + 2 * k) / 2) = image.halfAt address k := by
  rw [Image.halfAt, Image.halfAt, show (address + 2 * k) / 2 % 2 = k % 2 by omega,
    show 0 + 4 * ((address + 2 * k) / 2 / 2) = address + 4 * (k / 2) by omega]

/-- No terminator stands among the codes of a text. -/
theorem length_le_of_terminator {limit : Nat} (aligned : address % 4 = 0)
    (collected : collectCodes image script address limit 0 = (codes, terminated)) {k : Nat}
    (found : Terminator script image address room (address + 2 * k)) : codes.length ≤ k := by
  refine Nat.le_of_not_lt fun early => ?_
  have stored : (EncodedString.stored ⟨address, codes, terminated⟩)[k]? = some codes[k] := by
    rw [EncodedString.stored, List.getElem?_append_left early, List.getElem?_eq_getElem early]
  have code := (collectCodes_found collected stored).1
  rw [Nat.zero_add, ← halfAt_behind aligned, found.code] at code
  exact (collectCodes_ended collected).1 (code ▸ List.getElem_mem early)

section Collected

variable (size : script.entries.size = image.size) (free : script.isUnset address = true)
  (cover : image.size ≤ address / 4 + room)
include size free cover

/-- The slots of a text belong to the run. -/
theorem inRun_of_collected {n : Nat}
    (collected : collectCodes image script address (2 * slotsFrom image address) 0 =
      (codes, terminated)) (behind : address / 4 ≤ n)
    (before : n < address / 4 + EncodedString.width ⟨address, codes, terminated⟩) :
    InRun script image (address / 4) room n := by
  have aligned := (Script.slot_of_isUnset free).1
  have slots : ∀ k, address / 4 ≤ k → k ≤ n → script.entries[k]? = some .unset := by
    intro k low high
    have := collectCodes_free collected (k := k - address / 4) (by omega)
    rw [show address + 4 * (k - address / 4) = 4 * k by omega] at this
    have at_k := (Script.slot_of_isUnset this).2
    rwa [show 4 * k / 4 = k by omega] at at_k
  have := (Array.getElem?_eq_some_iff.mp (slots n behind (Nat.le_refl n))).1
  exact ⟨behind, by omega, by omega, slots⟩

/-- Where a text is read up to its terminator, the search finds that. -/
theorem findTerminator_of_terminated
    (collected : collectCodes image script address (2 * slotsFrom image address) 0 =
      (codes, true)) :
    findTerminator script image address room = some (address + 2 * codes.length) := by
  have aligned := (Script.slot_of_isUnset free).1
  rw [findTerminator_isLeast (by omega)]
  have stored : (EncodedString.stored ⟨address, codes, true⟩)[codes.length]? = some sentinel := by
    simp [EncodedString.stored]
  have last := (collectCodes_found collected stored).1
  have width : codes.length / 2 < EncodedString.width ⟨address, codes, true⟩ := by
    simp only [EncodedString.width, EncodedString.storedLength, if_true]
    omega
  refine ⟨⟨by omega, ?_, ?_⟩, fun place found => ?_⟩
  · exact inRun_of_collected size free cover collected (by omega) (by omega)
  · rw [halfAt_behind (by omega), ← last, Nat.zero_add]
  · obtain ⟨k, rfl⟩ := Terminator.exists_half (by omega) found
    have := length_le_of_terminator (by omega) collected found
    omega

/-- A text without a terminator takes the whole run. -/
theorem run_of_open
    (collected : collectCodes image script address (2 * slotsFrom image address) 0 =
      (codes, false)) :
    codes.length % 2 = 0 ∧ ∀ n, InRun script image (address / 4) room n ↔
      address / 4 ≤ n ∧ n < address / 4 + codes.length / 2 := by
  have aligned := (Script.slot_of_isUnset free).1
  have run := @inRun_of_collected _ _ _ _ codes false size free cover
  have width : EncodedString.width ⟨address, codes, false⟩ = (codes.length + 1) / 2 := by
    simp [EncodedString.width, EncodedString.storedLength]
  have short : (codes.length + 1) / 2 ≤ slotsFrom image address := by
    by_cases some : codes.length = 0
    · omega
    have := (run (n := address / 4 + ((codes.length + 1) / 2 - 1)) collected (by omega)
      (by omega)).inside
    simp only [slotsFrom]
    omega
  have stops := (collectCodes_ended collected).2 rfl
  simp only [slotsFrom, Nat.zero_add] at short stops
  refine ⟨by omega, fun n => ⟨fun found => ⟨found.behind, ?_⟩, fun within =>
    run collected within.1 (by omega)⟩⟩
  have := found.inside
  refine Nat.lt_of_not_le fun late => ?_
  rcases stops with full | out | ⟨-, taken⟩
  · omega
  · omega
  · have there := found.free (address / 4 + codes.length / 2) (by omega) late
    rw [show address + 4 * (codes.length / 2) = 4 * (address / 4 + codes.length / 2) by omega,
      Script.isUnset, Script.entryAt?_slot, there] at taken
    cases taken

/-- Where a text is read that has no terminator, the search finds none. -/
theorem findTerminator_of_open
    (collected : collectCodes image script address (2 * slotsFrom image address) 0 =
      (codes, false)) :
    findTerminator script image address room = none := by
  have aligned := (Script.slot_of_isUnset free).1
  obtain ⟨even, run⟩ := run_of_open size free cover collected
  refine (findTerminator_eq_none_iff (by omega)).mpr fun place found => ?_
  obtain ⟨k, rfl⟩ := found.exists_half (by omega)
  have := (run _).mp found.run
  have := length_le_of_terminator (by omega) collected found
  omega

end Collected

/-- The search for a terminator finds the first one of the run of free slots at an
address, if there is one, and that is what a search for the bytes of the sentinel finds.
It agrees with the text that is read at a free slot: the terminator it finds ends that
text, and where it finds none, the text has no terminator and takes the whole run. That
text is laid out there, unless the half-word behind an odd number of them is not zero. -/
theorem findTerminator_agrees (size : script.entries.size = image.size)
    (aligned : address % 4 = 0) {findIter : List UInt8 → List UInt8 → List Nat}
    (reports : Reports findIter) :
    (∀ place, findTerminator script image address room = some place ↔
      IsLeast {place | Terminator script image address room place} place) ∧
    (findTerminator script image address room = none ↔
      ∀ place, ¬ Terminator script image address room place) ∧
    searchBytes findIter script image address room = findTerminator script image address room ∧
    (script.isUnset address = true → image.size ≤ address / 4 + room →
      ∃ text : EncodedString, text.address = address ∧
        (∀ limit, 2 * slotsFrom image address ≤ limit →
          collectCodes image script address limit 0 = (text.codes, text.terminated)) ∧
        ((text.storedLength % 2 = 1 ∧
              (image.wordAt (address + 4 * (text.width - 1))).high ≠ 0 ∧
            layText image script address none = script.diagnose address .stringSkipped) ∨
          ((text.storedLength % 2 = 1 →
              (image.wordAt (address + 4 * (text.width - 1))).high = 0) ∧
            layText image script address none =
              (script.setEntry address (.encodedString text)).fill (address + 4)
                (.continuation address) (text.width - 1))) ∧
        (∀ place, findTerminator script image address room = some place →
          text.terminated = true ∧ address ≤ place ∧
            text.codes.length = (place - address) / 2) ∧
        (findTerminator script image address room = none →
          text.terminated = false ∧ ∃ length, text.codes.length = 2 * length ∧
            ∀ n, InRun script image (address / 4) room n ↔
              address / 4 ≤ n ∧ n < address / 4 + length)) := by
  refine ⟨fun _ => findTerminator_isLeast aligned, findTerminator_eq_none_iff aligned,
    searchBytes_eq reports aligned, fun free cover => ?_⟩
  obtain ⟨⟨home, codes, terminated⟩, here, collected, laid⟩ := layText_scanned image free none
  obtain rfl : address = home := here.symm
  rw [Option.getD_none] at collected
  have inside : address / 4 < image.size :=
    size ▸ (Array.getElem?_eq_some_iff.mp (Script.slot_of_isUnset free).2).1
  refine ⟨⟨address, codes, terminated⟩, rfl, fun limit enough => ?_, ?_, ?_⟩
  · rw [← collected, show limit = 2 * slotsFrom image address +
      (limit - 2 * slotsFrom image address) by omega]
    refine collectCodes_room _ ?_
    simp only [slotsFrom]
    omega
  · rcases laid with ⟨empty, -⟩ | skipped | ⟨found, laid⟩
    · -- The slot is free and lies in the image, so there is something to store.
      obtain ⟨room, eq⟩ : ∃ room, 2 * slotsFrom image address = room + 1 :=
        ⟨2 * slotsFrom image address - 1, by simp only [slotsFrom]; omega⟩
      exact absurd empty (Nat.ne_of_gt (collectCodes_nonempty inside free (eq ▸ collected)))
    · exact .inl skipped
    · exact .inr ⟨found.spelled.whole, laid⟩
  · cases terminated with
    | true =>
      rw [findTerminator_of_terminated size free cover collected]
      refine ⟨fun place found => ?_, fun none => by cases none⟩
      cases found
      exact ⟨rfl, by omega, by simp only; omega⟩
    | false =>
      obtain ⟨even, run⟩ := @run_of_open _ _ _ _ codes size free cover collected
      rw [findTerminator_of_open size free cover collected]
      refine ⟨fun place found => ?_, fun _ => ⟨rfl, codes.length / 2, ?_, run⟩⟩
      · cases found
      · change codes.length = 2 * (codes.length / 2)
        omega

/-- Three codes and the sentinel, the two bytes of which stand across two half-words first,
which does not count. -/
def acrossImage : Image := #[0x42a0ff41, 0xa0ff0043, 0xa0ff]

/-- Two codes and the sentinel, which stands in the lower half of a word; the upper half of
that word is not zero. -/
def crowdedImage : Image := #[0x41, 0x1a0ff]

theorem findTerminator_agrees_across :
    (occurrences (acrossImage.toList.flatMap Word.toBytes) (codeBytes sentinel) = [1, 6, 8] ∧
      searchBytes occurrences (.blank 3) acrossImage 0 3 = some 6 ∧
      ∃ text : EncodedString, text.codes.length = 3 ∧
        collectCodes acrossImage (.blank 3) 0 6 0 = (text.codes, true) ∧
        layText acrossImage (.blank 3) 0 none =
          ((Script.blank 3).setEntry 0 (.encodedString text)).fill 4 (.continuation 0) 1) ∧
      findTerminator (.blank 2) crowdedImage 0 2 = some 4 ∧
        layText crowdedImage (.blank 2) 0 none = (Script.blank 2).diagnose 0 .stringSkipped := by
  constructor
  · have found : findTerminator (.blank 3) acrossImage 0 3 = some 6 := by decide
    obtain ⟨-, -, bytes, text⟩ :=
      @findTerminator_agrees (.blank 3) acrossImage 0 3 rfl rfl _ reports_occurrences
    obtain ⟨text, -, collected, laid, ended, -⟩ := text (by decide) (by decide)
    obtain ⟨terminated, -, length⟩ := ended 6 found
    have stored : text.storedLength = 4 := by rw [EncodedString.storedLength, terminated, length]; rfl
    have width : text.width - 1 = 1 := by rw [EncodedString.width, stored]
    rcases laid with ⟨odd, -⟩ | ⟨-, laid⟩
    · rw [stored] at odd
      cases odd
    · rw [width] at laid
      exact ⟨by decide, bytes.trans found, text, length, terminated ▸ collected 6 (by decide), laid⟩
  · have found : findTerminator (.blank 2) crowdedImage 0 2 = some 4 := by decide
    obtain ⟨-, -, -, text⟩ :=
      @findTerminator_agrees (.blank 2) crowdedImage 0 2 rfl rfl _ reports_occurrences
    obtain ⟨text, -, -, laid, ended, -⟩ := text (by decide) (by decide)
    obtain ⟨terminated, -, length⟩ := ended 4 found
    have stored : text.storedLength = 3 := by rw [EncodedString.storedLength, terminated, length]; rfl
    have width : text.width - 1 = 1 := by rw [EncodedString.width, stored]
    rcases laid with ⟨-, -, skipped⟩ | ⟨whole, -⟩
    · exact ⟨found, skipped⟩
    · rw [width] at whole
      exact absurd (whole (by rw [stored])) (by decide)

end Recovery
end EventScript
