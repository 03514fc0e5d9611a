/-
What the operations of a label table do to its two views: the names of an
address, and the references held on a name.

A table that only ever minted its names is sound (`LabelTable.Sound`): a name
stands at one address and there once, an address is listed as long as it has a
name, and the names listed are the names referred to. Taking a reference and
giving one back keep a table sound. A name goes only with its last reference
(`mem_namesAt_release`), so whoever still refers to it finds it where it was.
-/
import EventScript.Label

namespace EventScript.LabelTable

/-! ## Minted names -/

theorem mintedName_injective {m n : Nat} (h : mintedName m = mintedName n) : m = n := by
  have digits : Nat.toDigits 10 m = Nat.toDigits 10 n := by
    simpa [mintedName, Text.decimal, String.ext_iff] using h
  rw [← Nat.ofDigitChars_ten_toDigits (n := m), digits, Nat.ofDigitChars_ten_toDigits]

/-! ## The names of an address -/

theorem namesAt_eq {table : LabelTable} {address : Nat} {names : List String}
    (h : table.byAddress[address]? = some names) : table.namesAt address = names := by
  simp [namesAt, h]

theorem namesAt_append (table : LabelTable) (address other : Nat) (name : String) :
    (table.append address name).namesAt other =
      if other = address then table.namesAt address ++ [name] else table.namesAt other := by
  simp only [namesAt, append, Std.ExtTreeMap.getElem?_insert, Std.compare_eq_iff_eq]
  by_cases h : address = other
  · simp [h]
  · simp [h, Ne.symm h]

theorem contains_append (table : LabelTable) (address other : Nat) (name : String) :
    (table.append address name).contains other =
      (decide (other = address) || table.contains other) := by
  simp only [contains, append, Std.ExtTreeMap.contains_insert]
  by_cases h : address = other
  · simp [h]
  · simp [h, Ne.symm h]

theorem mem_namesAt_append {table : LabelTable} {address other : Nat} {name added : String} :
    name ∈ (table.append address added).namesAt other ↔
      name ∈ table.namesAt other ∨ other = address ∧ name = added := by
  rw [namesAt_append]
  split
  · rename_i eq
    simp [eq]
  · rename_i ne
    simp [ne]

theorem mem_namesAt_of_addressOf? {table : LabelTable} {name : String} {address : Nat}
    (h : table.addressOf? name = some address) : name ∈ table.namesAt address := by
  rw [addressOf?, Option.map_eq_some_iff] at h
  obtain ⟨⟨a, names⟩, first, rfl⟩ := h
  have listed := List.mem_of_find?_eq_some first
  have carries := List.find?_some first
  rw [toList, Std.ExtTreeMap.mem_toList_iff_getElem?_eq_some] at listed
  rw [namesAt_eq listed]
  simpa using carries

theorem addressOf?_eq_none_iff {table : LabelTable} {name : String} :
    table.addressOf? name = none ↔ ∀ address, name ∉ table.namesAt address := by
  constructor
  · intro none address mem
    rw [addressOf?, Option.map_eq_none_iff, List.find?_eq_none] at none
    cases stored : table.byAddress[address]? with
    | none => simp [namesAt, stored] at mem
    | some names =>
      have listed : (address, names) ∈ table.toList := by
        rw [toList, Std.ExtTreeMap.mem_toList_iff_getElem?_eq_some]
        exact stored
      rw [namesAt_eq stored] at mem
      exact absurd mem (by simpa using none _ listed)
  · intro nowhere
    cases found : table.addressOf? name with
    | none => rfl
    | some address => exact absurd (mem_namesAt_of_addressOf? found) (nowhere address)

theorem namesAt_unlist (table : LabelTable) (name : String) (other : Nat) :
    (table.unlist name).namesAt other =
      if table.addressOf? name = some other then (table.namesAt other).filter (· != name)
      else table.namesAt other := by
  rw [unlist]
  split
  · rename_i nowhere
    simp [nowhere]
  · rename_i address found
    rw [found]
    by_cases eq : address = other
    · subst eq
      cases rest : (table.namesAt address).filter (· != name) with
      | nil => simp [namesAt]
      | cons first others => simp [namesAt]
    · rw [if_neg (by simpa using eq)]
      simp only
      split <;> simp [namesAt, Std.ExtTreeMap.getElem?_erase, Std.ExtTreeMap.getElem?_insert, eq]

/-- An address is listed as long as it has a name. -/
def Listed (table : LabelTable) : Prop :=
  ∀ address, table.contains address = true ↔ table.namesAt address ≠ []

theorem Listed.append {table : LabelTable} (h : table.Listed) (address : Nat) (name : String) :
    (table.append address name).Listed := by
  intro other
  rw [namesAt_append, contains_append]
  by_cases eq : other = address
  · simp [eq]
  · simpa [eq] using h other

theorem Listed.unlist {table : LabelTable} (h : table.Listed) (name : String) :
    (table.unlist name).Listed := by
  intro other
  rw [namesAt_unlist, LabelTable.unlist]
  split
  · rename_i nowhere
    simpa [nowhere] using h other
  · rename_i address found
    rw [found]
    by_cases eq : address = other
    · subst eq
      cases rest : (table.namesAt address).filter (· != name) with
      | nil => simp [contains]
      | cons first others => simp [contains]
    · rw [if_neg (by simpa using eq)]
      simp only
      split <;> simpa [contains, eq] using h other

/-- A name stands at one address, and there once. -/
structure Distinct (table : LabelTable) : Prop where
  unique : ∀ {name a b}, name ∈ table.namesAt a → name ∈ table.namesAt b → a = b
  nodup : ∀ address, (table.namesAt address).Nodup

/-- A name that stands nowhere yet is put at an address. -/
theorem Distinct.append {table : LabelTable} (h : table.Distinct) {name : String}
    (new : ∀ address, name ∉ table.namesAt address) (address : Nat) :
    (table.append address name).Distinct := by
  constructor
  · intro other a b there elsewhere
    rcases mem_namesAt_append.mp there with old | ⟨rfl, rfl⟩
    · rcases mem_namesAt_append.mp elsewhere with old' | ⟨-, rfl⟩
      · exact h.unique old old'
      · exact absurd old (new a)
    · rcases mem_namesAt_append.mp elsewhere with old | ⟨rfl, -⟩
      · exact absurd old (new b)
      · rfl
  · intro other
    rw [namesAt_append]
    split
    · refine List.nodup_append.mpr ⟨h.nodup address, by simp, fun old mem last among same => ?_⟩
      cases List.mem_singleton.mp among
      exact new address (same ▸ mem)
    · exact h.nodup other

/-- The address found for a name is the one it stands at. -/
theorem Distinct.addressOf?_eq_some_iff {table : LabelTable} (h : table.Distinct) {name : String}
    {address : Nat} : table.addressOf? name = some address ↔ name ∈ table.namesAt address := by
  refine ⟨mem_namesAt_of_addressOf?, fun mem => ?_⟩
  cases found : table.addressOf? name with
  | some a => rw [h.unique (mem_namesAt_of_addressOf? found) mem]
  | none => exact absurd mem (addressOf?_eq_none_iff.mp found address)

/-- A name that is taken off the table stands nowhere any more. -/
theorem Distinct.namesAt_unlist {table : LabelTable} (h : table.Distinct) (name : String)
    (address : Nat) :
    (table.unlist name).namesAt address = (table.namesAt address).filter (· != name) := by
  rw [LabelTable.namesAt_unlist]
  split
  · rfl
  · rename_i other
    refine (List.filter_eq_self.mpr fun x mem => ?_).symm
    simp only [bne_iff_ne]
    rintro rfl
    exact other (h.addressOf?_eq_some_iff.mpr mem)

theorem Distinct.unlist {table : LabelTable} (h : table.Distinct) (name : String) :
    (table.unlist name).Distinct where
  unique := fun there elsewhere => by
    rw [h.namesAt_unlist, List.mem_filter] at there elsewhere
    exact h.unique there.1 elsewhere.1
  nodup := fun address => by
    rw [h.namesAt_unlist]
    exact (h.nodup address).filter _

/-! ## Sound tables -/

/-- Names are minted, each stands at one address and there once, and the names
that stand somewhere are those that are referred to. -/
structure Sound (table : LabelTable) : Prop where
  minted : ∀ {name address}, name ∈ table.namesAt address →
    ∃ n, n < table.nextIndex ∧ name = mintedName n
  unique : ∀ {name a b}, name ∈ table.namesAt a → name ∈ table.namesAt b → a = b
  nodup : ∀ address, (table.namesAt address).Nodup
  listed : ∀ address, table.contains address = true ↔ table.namesAt address ≠ []
  counted : ∀ name, 0 < table.refCount name ↔ ∃ address, name ∈ table.namesAt address

theorem Sound.empty : Sound {} := by
  have none : ∀ address, namesAt {} address = [] := by simp [namesAt]
  refine ⟨?_, ?_, ?_, ?_, ?_⟩
  · simp [none]
  · simp [none]
  · simp [none]
  · simp [none, contains]
  · simp [none, refCount]

theorem Sound.distinct {table : LabelTable} (h : table.Sound) : table.Distinct :=
  ⟨h.unique, h.nodup⟩

theorem Sound.addressOf?_eq_some_iff {table : LabelTable} (h : table.Sound) {name : String}
    {address : Nat} : table.addressOf? name = some address ↔ name ∈ table.namesAt address :=
  h.distinct.addressOf?_eq_some_iff

/-! ## Taking references -/

theorem refCount_acquire (table : LabelTable) (name other : String) :
    (table.acquire name).refCount other =
      table.refCount other + if other = name then 1 else 0 := by
  simp only [refCount, acquire, Std.ExtTreeMap.getElem?_insert, Std.compare_eq_iff_eq]
  by_cases h : name = other
  · simp [h]
  · simp [h, Ne.symm h]

theorem Sound.acquire {table : LabelTable} (h : table.Sound) {name : String} {address : Nat}
    (mem : name ∈ table.namesAt address) : (table.acquire name).Sound where
  minted := h.minted
  unique := h.unique
  nodup := h.nodup
  listed := h.listed
  counted := fun other => by
    rw [refCount_acquire]
    by_cases eq : other = name
    · subst eq
      exact ⟨fun _ => ⟨address, mem⟩, fun _ => by simp⟩
    · rw [if_neg eq, Nat.add_zero]
      exact h.counted other

theorem namesAt_addUnique (table : LabelTable) (address other : Nat) :
    (table.addUnique address).2.namesAt other =
      if other = address then table.namesAt address ++ [(table.addUnique address).1]
      else table.namesAt other :=
  namesAt_append ..

/-- A fresh name is nowhere yet. -/
theorem Sound.fresh {table : LabelTable} (h : table.Sound) (address other : Nat) :
    (table.addUnique address).1 ∉ table.namesAt other := by
  intro mem
  obtain ⟨n, old, eq⟩ := h.minted mem
  have := mintedName_injective eq
  omega

theorem Sound.refCount_addUnique {table : LabelTable} (h : table.Sound) (address : Nat)
    (other : String) :
    (table.addUnique address).2.refCount other =
      table.refCount other + if other = (table.addUnique address).1 then 1 else 0 := by
  have none : table.refCount (table.addUnique address).1 = 0 := by
    have absent : ¬ 0 < table.refCount (table.addUnique address).1 := fun pos => by
      obtain ⟨a, mem⟩ := (h.counted _).mp pos
      exact h.fresh address a mem
    omega
  by_cases eq : other = (table.addUnique address).1
  · rw [eq, none]
    simp [refCount, LabelTable.addUnique, append]
  · have ne : mintedName table.nextIndex ≠ other := fun same => eq same.symm
    rw [if_neg eq, Nat.add_zero]
    simp [refCount, LabelTable.addUnique, append, Std.ExtTreeMap.getElem?_insert, ne]

theorem Sound.addUnique {table : LabelTable} (h : table.Sound) (address : Nat) :
    (table.addUnique address).2.Sound := by
  have names := namesAt_addUnique table address
  have distinct := h.distinct.append (h.fresh address) address
  refine ⟨?_, distinct.unique, distinct.nodup, Listed.append h.listed address _, ?_⟩
  · intro name other mem
    rw [names] at mem
    have old : ∀ a, name ∈ table.namesAt a → ∃ n, n < table.nextIndex + 1 ∧ name = mintedName n :=
      fun a mem => by
        obtain ⟨n, lt, eq⟩ := h.minted mem
        exact ⟨n, by omega, eq⟩
    split at mem
    · rcases List.mem_append.mp mem with mem | mem
      · exact old _ mem
      · exact ⟨table.nextIndex, Nat.lt_succ_self _, List.mem_singleton.mp mem⟩
    · exact old _ mem
  · intro name
    rw [h.refCount_addUnique]
    by_cases eq : name = (table.addUnique address).1
    · refine ⟨fun _ => ⟨address, ?_⟩, fun _ => by simp [eq]⟩
      simp [names, eq]
    · rw [if_neg eq, Nat.add_zero, h.counted]
      have same : ∀ other, name ∈ (table.addUnique address).2.namesAt other ↔
          name ∈ table.namesAt other := fun other => by
        rw [names]
        split
        · rename_i at_address
          simp [eq, at_address]
        · rfl
      simp [same]

/-- What taking references on the labels of some addresses does, `taken` being
the addresses with the names they answered. -/
structure Takes (before : LabelTable) (taken : List (Nat × String)) (after : LabelTable) :
    Prop where
  sound : after.Sound
  there : ∀ {address name}, (address, name) ∈ taken → name ∈ after.namesAt address
  kept : ∀ {name address}, name ∈ before.namesAt address → name ∈ after.namesAt address
  new : ∀ address, after.namesAt address ≠ [] →
    before.namesAt address ≠ [] ∨ address ∈ taken.map Prod.fst
  counted : ∀ name,
    after.refCount name = before.refCount name + (taken.map Prod.snd).count name

theorem Takes.none {table : LabelTable} (h : table.Sound) : Takes table [] table where
  sound := h
  there := by simp
  kept := id
  new := fun _ => .inl
  counted := by simp

theorem Takes.append {a b c : LabelTable} {first second : List (Nat × String)}
    (h : Takes a first b) (k : Takes b second c) : Takes a (first ++ second) c where
  sound := k.sound
  there := fun mem => by
    rcases List.mem_append.mp mem with mem | mem
    · exact k.kept (h.there mem)
    · exact k.there mem
  kept := fun mem => k.kept (h.kept mem)
  new := fun address listed => by
    rw [List.map_append, List.mem_append]
    rcases k.new address listed with old | new
    · exact (h.new address old).imp_right .inl
    · exact .inr (.inr new)
  counted := fun name => by
    rw [k.counted, h.counted, List.map_append, List.count_append]
    omega

theorem Sound.takes_addUnique {table : LabelTable} (h : table.Sound) (address : Nat) :
    Takes table [(address, (table.addUnique address).1)] (table.addUnique address).2 := by
  have names := namesAt_addUnique table address
  refine ⟨h.addUnique address, ?_, ?_, ?_, ?_⟩
  · intro a name mem
    simp only [List.mem_singleton, Prod.mk.injEq] at mem
    obtain ⟨rfl, rfl⟩ := mem
    simp [names]
  · intro name a mem
    rw [names]
    split
    · rename_i eq
      subst eq
      exact List.mem_append_left _ mem
    · exact mem
  · intro a listed
    rw [names] at listed
    split at listed
    · rename_i eq
      exact .inr (by simp [eq])
    · exact .inl listed
  · intro name
    rw [h.refCount_addUnique]
    by_cases eq : name = (table.addUnique address).1
    · simp [eq]
    · simp [eq, Ne.symm eq]

/-- **Taking a reference** on the label of an address. -/
theorem Sound.takes_add {table : LabelTable} (h : table.Sound) (address : Nat) :
    Takes table [(address, (table.add address).1)] (table.add address).2 := by
  rw [LabelTable.add]
  split
  · rename_i name named
    have mem : name ∈ table.namesAt address := List.mem_of_mem_head? named
    refine ⟨h.acquire mem, ?_, id, fun _ => .inl, ?_⟩
    · intro a other there
      simp only [List.mem_singleton, Prod.mk.injEq] at there
      obtain ⟨rfl, rfl⟩ := there
      exact mem
    · intro other
      rw [refCount_acquire]
      by_cases eq : other = name
      · simp [eq]
      · simp [eq, Ne.symm eq]
  · exact h.takes_addUnique address

theorem length_addAll (table : LabelTable) (addresses : List Nat) :
    (table.addAll addresses).1.length = addresses.length := by
  induction addresses generalizing table with
  | nil => rfl
  | cons address rest ih => simp [addAll, ih]

theorem Sound.takes_addAll {table : LabelTable} (h : table.Sound) (addresses : List Nat) :
    Takes table (addresses.zip (table.addAll addresses).1) (table.addAll addresses).2 := by
  induction addresses generalizing table with
  | nil => exact .none h
  | cons address rest ih =>
    have first := h.takes_add address
    exact first.append (ih first.sound)

/-! ## Giving references back -/

/-- What giving back one reference on each of some names does: a name goes with
its last reference, and else stays where it is. -/
structure Gives (before : LabelTable) (given : List String) (after : LabelTable) : Prop where
  sound : after.Sound
  kept : ∀ name address, name ∈ after.namesAt address ↔
    name ∈ before.namesAt address ∧ 0 < after.refCount name
  counted : ∀ name, after.refCount name = before.refCount name - given.count name

theorem Gives.none {table : LabelTable} (h : table.Sound) : Gives table [] table where
  sound := h
  kept := fun name address =>
    ⟨fun mem => ⟨mem, (h.counted name).mpr ⟨address, mem⟩⟩, And.left⟩
  counted := by simp

theorem Gives.append {a b c : LabelTable} {first second : List String} (h : Gives a first b)
    (k : Gives b second c) : Gives a (first ++ second) c where
  sound := k.sound
  kept := fun name address => by
    rw [k.kept, h.kept]
    have := k.counted name
    constructor
    · exact fun ⟨⟨mem, _⟩, pos⟩ => ⟨mem, pos⟩
    · exact fun ⟨mem, pos⟩ => ⟨⟨mem, by omega⟩, pos⟩
  counted := fun name => by
    rw [k.counted, h.counted, List.count_append]
    omega

/-- Giving references back names no address. -/
theorem Gives.unnamed {before after : LabelTable} {given : List String}
    (h : Gives before given after) (sound : before.Sound) {address : Nat}
    (unnamed : before.contains address = false) : after.contains address = false := by
  rw [← Bool.not_eq_true] at unnamed ⊢
  intro listed
  obtain ⟨name, mem⟩ := List.exists_mem_of_ne_nil _ ((h.sound.listed address).mp listed)
  exact unnamed ((sound.listed address).mpr (List.ne_nil_of_mem ((h.kept name address).mp mem).1))

/-- Giving back a reference leaves the names as they are, or takes the name off
with the last one. -/
theorem Distinct.namesAt_release {table : LabelTable} (h : table.Distinct) (name : String)
    (address : Nat) :
    (table.release name).2.namesAt address =
      if (table.release name).1 then (table.namesAt address).filter (· != name)
      else table.namesAt address := by
  rw [release]
  split
  · rfl
  · split
    · rfl
    · have same : ({ table with references := table.references.erase name }).Distinct :=
        ⟨h.unique, h.nodup⟩
      exact same.namesAt_unlist name address

theorem Distinct.release {table : LabelTable} (h : table.Distinct) (name : String) :
    (table.release name).2.Distinct := by
  rw [LabelTable.release]
  split
  · exact h
  · split
    · exact ⟨h.unique, h.nodup⟩
    · have same : ({ table with references := table.references.erase name }).Distinct :=
        ⟨h.unique, h.nodup⟩
      exact same.unlist name

theorem Listed.release {table : LabelTable} (h : table.Listed) (name : String) :
    (table.release name).2.Listed := by
  rw [LabelTable.release]
  split
  · exact h
  · split
    · exact h
    · have same : ({ table with references := table.references.erase name }).Listed := h
      exact same.unlist name

theorem refCount_release (table : LabelTable) (name other : String) :
    (table.release name).2.refCount other =
      table.refCount other - if other = name then 1 else 0 := by
  have untouched : ∀ (references : Std.ExtTreeMap String Nat),
      ({ table with references }.unlist name).refCount other = (references[other]?).getD 0 :=
    fun references => by
      rw [unlist]
      split <;> rfl
  rw [release]
  split
  · rename_i none
    by_cases eq : other = name
    · simp [refCount, eq, none]
    · simp [eq]
  · rename_i count some
    split
    · by_cases eq : name = other
      · simp [refCount, ← eq, some]
      · simp [refCount, Std.ExtTreeMap.getElem?_insert, eq, Ne.symm eq]
    · simp only [untouched]
      by_cases eq : name = other
      · simp only [refCount, ← eq, some, Std.ExtTreeMap.getElem?_erase_self]
        simp
        omega
      · simp [refCount, Std.ExtTreeMap.getElem?_erase, eq, Ne.symm eq]

/-- A name goes only with its last reference. -/
theorem Sound.mem_namesAt_release {table : LabelTable} (h : table.Sound) (name other : String)
    (address : Nat) :
    other ∈ (table.release name).2.namesAt address ↔
      other ∈ table.namesAt address ∧ 0 < (table.release name).2.refCount other := by
  rw [refCount_release, h.distinct.namesAt_release]
  have held : other ∈ table.namesAt address → 0 < table.refCount other :=
    fun mem => (h.counted other).mpr ⟨address, mem⟩
  rw [release]
  split
  · rename_i none
    refine ⟨fun mem => ⟨mem, ?_⟩, And.left⟩
    have := held mem
    split
    · rename_i eq
      simp [refCount, eq, none] at this
    · omega
  · rename_i count some
    have value : table.refCount name = count := by simp [refCount, some]
    split
    · refine ⟨fun mem => ⟨mem, ?_⟩, And.left⟩
      have := held mem
      split
      · rename_i eq
        rw [eq, value]
        omega
      · omega
    · simp only [↓reduceIte, List.mem_filter, bne_iff_ne]
      refine and_congr_right fun mem => ?_
      have := held mem
      by_cases eq : other = name
      · simp only [eq, value]
        simp
        omega
      · simp [eq, this]

theorem nextIndex_release (table : LabelTable) (name : String) :
    (table.release name).2.nextIndex = table.nextIndex := by
  rw [release]
  split
  · rfl
  · split
    · rfl
    · rw [unlist]
      split <;> rfl

/-- **Giving a reference back.** -/
theorem Sound.gives_release {table : LabelTable} (h : table.Sound) (name : String) :
    Gives table [name] (table.release name).2 := by
  have kept := h.mem_namesAt_release name
  refine ⟨⟨?_, ?_, ?_, ?_, ?_⟩, kept, ?_⟩
  · intro other address mem
    rw [nextIndex_release]
    exact h.minted ((kept _ _).mp mem).1
  · exact fun ma mb => h.unique ((kept _ _).mp ma).1 ((kept _ _).mp mb).1
  · exact (h.distinct.release name).nodup
  · exact Listed.release h.listed name
  · intro other
    simp only [kept]
    refine ⟨fun pos => ?_, fun ⟨_, _, pos⟩ => pos⟩
    have before : 0 < table.refCount other := by
      rw [refCount_release] at pos
      omega
    obtain ⟨address, mem⟩ := (h.counted other).mp before
    exact ⟨address, mem, pos⟩
  · intro other
    rw [refCount_release]
    by_cases eq : other = name
    · simp [eq]
    · simp [eq, Ne.symm eq]

end EventScript.LabelTable
