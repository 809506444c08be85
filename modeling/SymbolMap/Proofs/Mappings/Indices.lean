import SymbolMap.Mappings.Basic
import SymbolMap.Proofs.Mappings.PairTables

/-!
# Indices as scans

An index of classes is made in two stages.  An entry is made of each class, which can fail, and then
the entries are put into one table.  What comes out is the same as if both were done in one run from
the first class to the last (`indexInOrder_eq_scan`).  The index of the fields of a class is such a
run too, with a failure that also names the class (`fieldsByUnmappedName_eq_scan`).

A scan fills a table with what stands for each element of a list, under the key of the element.
`exists_scan_iff` says when it succeeds, `scan_eq_ok_iff` with what, and `scan_eq_error_iff` how it
fails: with what is wrong at the first element at which anything is wrong.  A class with a repeated
field therefore does not hide that one before it has a repeated name, although its entry has failed
before any entry is put into the table.
-/

namespace SymbolMap

/-! ## Scans -/

section

variable {α β : Type}

/-- Enters what stands for an element under its key, unless the key is taken. -/
def enterUnder (taken : String → Failure) (key : α → String) (content : α → Outcome β)
    (t : Table String β) (x : α) : Outcome (Table String β) := do
  let value ← content x
  match t.add? (key x) value with
  | some t => return t
  | none => throw (taken (key x))

/-- The table of what stands for the elements of a list, entered from the first to the last. -/
def scan (taken : String → Failure) (key : α → String) (content : α → Outcome β) (xs : List α) :
    Outcome (Table String β) :=
  xs.foldlM (enterUnder taken key content) .empty

/-- The key of an element with what stands for it. -/
def entryOf (key : α → String) (content : α → Outcome β) (x : α) : Outcome (String × β) := do
  return (key x, ← content x)

variable {taken : String → Failure} {key : α → String} {content : α → Outcome β} {x : α}
  {xs : List α} {t u : Table String β} {f : Failure}

theorem entryOf_eq_ok_iff {entry : String × β} :
    entryOf key content x = .ok entry ↔ entry.1 = key x ∧ content x = .ok entry.2 := by
  rw [entryOf, Outcome.bind_eq_ok_iff]
  constructor
  · rintro ⟨value, hvalue, h⟩
    cases h
    exact ⟨rfl, hvalue⟩
  · rintro ⟨hkey, hvalue⟩
    exact ⟨entry.2, hvalue, congrArg Except.ok (Prod.ext hkey.symm rfl)⟩

/-- A step adds the entry of the element. -/
theorem enterUnder_eq_ok_iff :
    enterUnder taken key content t x = .ok u ↔
      ∃ entry, entryOf key content x = .ok entry ∧ u.entries = t.entries ++ [entry] := by
  simp only [enterUnder, Outcome.bind_eq_ok_iff]
  constructor
  · rintro ⟨value, hvalue, h⟩
    cases hadd : t.add? (key x) value with
    | none =>
      rw [hadd] at h
      cases h
    | some u' =>
      rw [hadd] at h
      cases h
      obtain ⟨-, rfl⟩ := Table.add?_eq_some_iff.1 hadd
      exact ⟨(key x, value), entryOf_eq_ok_iff.2 ⟨rfl, hvalue⟩, rfl⟩
  · rintro ⟨⟨k, value⟩, hentry, hu⟩
    obtain ⟨rfl, hvalue⟩ := entryOf_eq_ok_iff.1 hentry
    have hnew := Table.not_mem_keys_of_entries hu
    refine ⟨value, hvalue, ?_⟩
    rw [Table.add?_eq_some_iff.2 ⟨hnew, rfl⟩]
    exact congrArg Except.ok (Table.ext hu.symm)

/-- A step fails if there is nothing for the element, or else its key is taken. -/
theorem enterUnder_eq_error_iff :
    enterUnder taken key content t x = .error f ↔
      content x = .error f ∨
        (∃ value, content x = .ok value) ∧ key x ∈ t.keys ∧ f = taken (key x) := by
  simp only [enterUnder, Outcome.bind_eq_error_iff]
  refine or_congr Iff.rfl ?_
  constructor
  · rintro ⟨value, hvalue, h⟩
    split at h
    · cases h
    · rename_i hadd
      exact ⟨⟨value, hvalue⟩, Table.add?_eq_none_iff.1 hadd, (Except.error.inj h).symm⟩
  · rintro ⟨⟨value, hvalue⟩, hmem, rfl⟩
    refine ⟨value, hvalue, ?_⟩
    rw [Table.add?_eq_none_iff.2 hmem]
    rfl

/-- A scan that goes on from a table adds the entries of the elements to it. -/
theorem foldlM_enterUnder_eq_ok_iff :
    xs.foldlM (enterUnder taken key content) t = .ok u ↔
      ∃ made, xs.mapM (entryOf key content) = .ok made ∧ u.entries = t.entries ++ made := by
  simp only [Outcome.mapM_eq_ok_iff]
  induction xs generalizing t with
  | nil =>
    rw [List.foldlM_nil]
    constructor
    · intro h
      cases h
      exact ⟨[], .nil, (List.append_nil _).symm⟩
    · rintro ⟨made, hmade, hu⟩
      obtain rfl := List.forall₂_nil_left_iff.1 hmade
      rw [List.append_nil] at hu
      exact congrArg Except.ok (Table.ext hu.symm)
  | cons x xs ih =>
    rw [List.foldlM_cons, Outcome.bind_eq_ok_iff]
    constructor
    · rintro ⟨t', hstep, hrest⟩
      obtain ⟨entry, hentry, ht'⟩ := enterUnder_eq_ok_iff.1 hstep
      obtain ⟨made, hmade, hu⟩ := ih.1 hrest
      exact ⟨entry :: made, .cons hentry hmade, by simp [hu, ht']⟩
    · rintro ⟨made, hmade, hu⟩
      obtain ⟨⟨k, value⟩, rest, hentry, hrest, rfl⟩ := List.forall₂_cons_left_iff.1 hmade
      -- the key of the first element is new, since the result lists it only once
      have hnew := Table.not_mem_keys_of_entries hu
      refine ⟨t.push k value hnew, enterUnder_eq_ok_iff.2 ⟨_, hentry, rfl⟩, ih.2 ⟨rest, hrest, ?_⟩⟩
      rw [hu, Table.push, List.append_assoc, List.singleton_append]

/-- **A scan that succeeds lists the entries of the elements, in order.** -/
theorem scan_eq_ok_iff :
    scan taken key content xs = .ok t ↔ xs.mapM (entryOf key content) = .ok t.entries := by
  rw [scan, foldlM_enterUnder_eq_ok_iff]
  constructor
  · rintro ⟨made, hmade, ht⟩
    exact ht ▸ hmade
  · intro h
    exact ⟨t.entries, h, rfl⟩

theorem keys_of_scan (h : scan taken key content xs = .ok t) : t.keys = xs.map key := by
  refine (map_eq_map_of_forall₂ (Outcome.mapM_eq_ok_iff.1 (scan_eq_ok_iff.1 h)) ?_).symm
  exact fun x entry hentry => (entryOf_eq_ok_iff.1 hentry).1.symm

theorem get?_of_scan (h : scan taken key content xs = .ok t) (hx : x ∈ xs) :
    ∃ value, content x = .ok value ∧ t.get? (key x) = some value := by
  obtain ⟨⟨k, value⟩, hmem, hentry⟩ :=
    exists_right_of_forall₂ (Outcome.mapM_eq_ok_iff.1 (scan_eq_ok_iff.1 h)) hx
  obtain ⟨rfl, hvalue⟩ := entryOf_eq_ok_iff.1 hentry
  exact ⟨value, hvalue, Table.get?_eq_some_iff.2 hmem⟩

/-- **A scan succeeds if no key repeats and there is something for each element.** -/
theorem exists_scan_iff :
    (∃ t, scan taken key content xs = .ok t) ↔
      (xs.map key).Nodup ∧ ∀ x ∈ xs, ∃ value, content x = .ok value := by
  constructor
  · rintro ⟨t, ht⟩
    refine ⟨keys_of_scan ht ▸ t.nodup, fun x hx => ?_⟩
    obtain ⟨value, hvalue, -⟩ := get?_of_scan ht hx
    exact ⟨value, hvalue⟩
  · rintro ⟨hnodup, hcontent⟩
    have hentries : ∀ x ∈ xs, ∃ entry, entryOf key content x = .ok entry := by
      intro x hx
      obtain ⟨value, hvalue⟩ := hcontent x hx
      exact ⟨(key x, value), entryOf_eq_ok_iff.2 ⟨rfl, hvalue⟩⟩
    obtain ⟨made, hmade⟩ := Outcome.exists_mapM_iff.2 hentries
    have hkeys : xs.map key = made.map Prod.fst :=
      map_eq_map_of_forall₂ (Outcome.mapM_eq_ok_iff.1 hmade)
        fun x entry hentry => (entryOf_eq_ok_iff.1 hentry).1.symm
    exact ⟨⟨made, hkeys ▸ hnodup⟩, scan_eq_ok_iff.2 hmade⟩

/-- **A scan fails at the first element at which something is wrong**: there is nothing for it, or
else its key is that of an element before it. -/
theorem scan_eq_error_iff :
    scan taken key content xs = .error f ↔
      ∃ earlier x later, xs = earlier ++ x :: later ∧ (earlier.map key).Nodup ∧
        (∀ y ∈ earlier, ∃ value, content y = .ok value) ∧
        (content x = .error f ∨
          (∃ value, content x = .ok value) ∧ key x ∈ earlier.map key ∧ f = taken (key x)) := by
  rw [scan, Outcome.foldlM_eq_error_iff]
  constructor
  · rintro ⟨earlier, x, later, t, rfl, hrun, hstep⟩
    obtain ⟨hnodup, hcontent⟩ := exists_scan_iff.1 ⟨t, hrun⟩
    refine ⟨earlier, x, later, rfl, hnodup, hcontent, ?_⟩
    rw [← keys_of_scan hrun]
    exact enterUnder_eq_error_iff.1 hstep
  · rintro ⟨earlier, x, later, rfl, hnodup, hcontent, hfault⟩
    have hrun : ∃ t, scan taken key content earlier = .ok t :=
      exists_scan_iff.2 ⟨hnodup, hcontent⟩
    obtain ⟨t, ht⟩ := hrun
    rw [← keys_of_scan ht] at hfault
    exact ⟨earlier, x, later, t, rfl, ht, enterUnder_eq_error_iff.2 hfault⟩

/-- Making all entries first and filling the table then is the same as a scan. -/
theorem indexInOrder_eq_scan {scope : Scope} {entry : α → Outcome (String × β)}
    (h : ∀ x ∈ xs, entry x = entryOf key content x) :
    indexInOrder scope (xs.map entry) =
      scan (fun k => .of (.duplicate scope k)) key content xs := by
  rw [List.map_congr_left h, indexInOrder, indexOnto, List.foldlM_map]
  refine Outcome.foldlM_congr (fun x _ t => ?_) Table.empty
  rw [entryOf, enterUnder]
  cases content x with
  | error e => rfl
  | ok value => rfl

end

/-! ## Elements under their keys -/

section

variable {α β : Type}

/-- The element is the first of a list whose key an element before it has. -/
def FirstRepeated (key : α → String) (xs : List α) (x : α) : Prop :=
  ∃ earlier later, xs = earlier ++ x :: later ∧ (earlier.map key).Nodup ∧ key x ∈ earlier.map key

/-- The table lists the elements in order, each once, and has each of them under its key. -/
structure Table.Indexes (t : Table String α) (key : α → String) (xs : List α) : Prop where
  keys : t.keys = xs.map key
  values : t.values = xs
  get? : ∀ x ∈ xs, t.get? (key x) = some x

/-- What an index of elements by their keys has to be, where `taken` is the failure for a key that
is there already. -/
structure IsIndex (taken : String → Failure) (key : α → String) (xs : List α)
    (r : Outcome (Table String α)) : Prop where
  built_iff : (∃ t, r = .ok t) ↔ (xs.map key).Nodup
  indexes : ∀ t, r = .ok t → t.Indexes key xs
  failure_iff : ∀ f, r = .error f ↔ ∃ x, FirstRepeated key xs x ∧ f = taken (key x)

/-- What the index of a first part of a list has under a key, the index of the list has too. -/
def NeverOverwrites (index : List α → Outcome (Table String β)) : Prop :=
  ∀ earlier later t, index (earlier ++ later) = .ok t →
    ∃ t₀, index earlier = .ok t₀ ∧ ∀ k value, t₀.get? k = some value → t.get? k = some value

theorem isIndex_scan (taken : String → Failure) (key : α → String) (xs : List α) :
    IsIndex taken key xs (scan taken key .ok xs) where
  built_iff := by
    rw [exists_scan_iff]
    exact and_iff_left fun x _ => ⟨x, rfl⟩
  indexes t ht := by
    have hentries : t.entries = xs.map fun x => (key x, x) :=
      Except.ok.inj ((scan_eq_ok_iff.1 ht).symm.trans List.mapM_pure)
    refine ⟨keys_of_scan ht, ?_, fun x hx => ?_⟩
    · rw [Table.values, hentries, List.map_map]
      exact List.map_id xs
    · rw [Table.get?_eq_some_iff, hentries]
      exact List.mem_map_of_mem hx
  failure_iff f := by
    rw [scan_eq_error_iff]
    constructor
    · rintro ⟨earlier, x, later, hxs, hnodup, -, hfails | ⟨-, hmem, hf⟩⟩
      · cases hfails
      · exact ⟨x, ⟨earlier, later, hxs, hnodup, hmem⟩, hf⟩
    · rintro ⟨x, ⟨earlier, later, hxs, hnodup, hmem⟩, hf⟩
      exact ⟨earlier, x, later, hxs, hnodup, fun y _ => ⟨y, rfl⟩, .inr ⟨⟨x, rfl⟩, hmem, hf⟩⟩

/-- Entries that are put into a table stay there. -/
theorem neverOverwrites_indexInOrder {scope : Scope} (entry : α → Outcome (String × β)) :
    NeverOverwrites fun xs => indexInOrder scope (xs.map entry) := by
  intro earlier later t h
  simp only [List.map_append, indexInOrder, indexOnto, List.foldlM_append] at h
  obtain ⟨t₀, hfirst, hrest⟩ := Outcome.bind_eq_ok_iff.1 h
  obtain ⟨made, -, ht⟩ := entries_indexOnto hrest
  refine ⟨t₀, hfirst, fun k value hvalue => ?_⟩
  rw [Table.get?_eq_some_iff] at hvalue ⊢
  rw [ht]
  exact List.mem_append_left made hvalue

end

/-! ## Fields under their names, class by class -/

/-- What is wrong with a class that comes after others: the first of its fields that repeats a name
or, if none does, its own name. -/
inductive MappedClass.Fault (key : MappedClass → String) (name : Symbol → String)
    (earlier : List MappedClass) (c : MappedClass) : Failure → Prop
  | field {s : Symbol} (h : FirstRepeated name c.fields s) :
      Fault key name earlier c (.of (.duplicate .field (key c ++ "." ++ name s)))
  | key (hfields : (c.fields.map name).Nodup) (h : key c ∈ earlier.map key) :
      Fault key name earlier c (.of (.duplicate .className (key c)))

/-- What an index of the fields of classes has to be, by the keys of the classes and the names of
the fields.  A failure says what is wrong with the first class with which anything is. -/
structure IsFieldIndex (key : MappedClass → String) (name : Symbol → String)
    (classes : List MappedClass) (r : Outcome (Table String (Table String Symbol))) : Prop where
  built_iff : (∃ t, r = .ok t) ↔
    (classes.map key).Nodup ∧ ∀ c ∈ classes, (c.fields.map name).Nodup
  keys : ∀ t, r = .ok t → t.keys = classes.map key
  fields : ∀ t, r = .ok t → ∀ c ∈ classes, ∃ u, t.get? (key c) = some u ∧ u.Indexes name c.fields
  failure_iff : ∀ f, r = .error f ↔ ∃ earlier c later, classes = earlier ++ c :: later ∧
    (earlier.map key).Nodup ∧ (∀ d ∈ earlier, (d.fields.map name).Nodup) ∧
    c.Fault key name earlier f

section

variable {key : MappedClass → String} {name : Symbol → String} {classes : List MappedClass}
  {c : MappedClass}

theorem MappedClass.fieldsByUnmappedName_eq_scan (hkey : c.unmappedName = .ok (key c))
    (hname : ∀ s ∈ c.fields, s.unmappedName = .ok (name s)) :
    c.fieldsByUnmappedName =
      scan (fun n => .of (.duplicate .field (key c ++ "." ++ n))) name .ok c.fields := by
  refine Outcome.foldlM_congr (fun s hs t => ?_) Table.empty
  simp only [hname s hs, hkey, enterUnder, Outcome.ok_bind]
  cases t.add? (name s) s with
  | none => rfl
  | some u => rfl

/-- The fields of a class are indexed by their names. -/
theorem MappedClass.isIndex_fieldsByUnmappedName (hkey : c.unmappedName = .ok (key c))
    (hname : ∀ s ∈ c.fields, s.unmappedName = .ok (name s)) :
    IsIndex (fun n => .of (.duplicate .field (key c ++ "." ++ n))) name c.fields
      c.fieldsByUnmappedName := by
  rw [fieldsByUnmappedName_eq_scan hkey hname]
  exact isIndex_scan _ name c.fields

theorem isFieldIndex_scan (hkey : ∀ c ∈ classes, c.unmappedName = .ok (key c))
    (hname : ∀ c ∈ classes, ∀ s ∈ c.fields, s.unmappedName = .ok (name s)) :
    IsFieldIndex key name classes
      (scan (fun k => .of (.duplicate .className k)) key MappedClass.fieldsByUnmappedName
        classes) := by
  have hindex : ∀ c ∈ classes, IsIndex (fun n => .of (.duplicate .field (key c ++ "." ++ n)))
      name c.fields c.fieldsByUnmappedName :=
    fun c hc => MappedClass.isIndex_fieldsByUnmappedName (hkey c hc) (hname c hc)
  refine ⟨?_, fun t ht => keys_of_scan ht, fun t ht c hc => ?_, fun f => ?_⟩
  · rw [exists_scan_iff]
    exact and_congr Iff.rfl (forall₂_congr fun c hc => (hindex c hc).built_iff)
  · obtain ⟨u, hu, hget⟩ := get?_of_scan ht hc
    exact ⟨u, hget, (hindex c hc).indexes u hu⟩
  · rw [scan_eq_error_iff]
    constructor
    · rintro ⟨earlier, c, later, rfl, hnodup, hfields, hfault⟩
      have hc := hindex c (by simp)
      refine ⟨earlier, c, later, rfl, hnodup, fun d hd => ?_, ?_⟩
      · exact (hindex d (by simp [hd])).built_iff.1 (hfields d hd)
      · rcases hfault with hfails | ⟨hbuilt, hmem, rfl⟩
        · obtain ⟨s, hs, rfl⟩ := (hc.failure_iff f).1 hfails
          exact .field hs
        · exact .key (hc.built_iff.1 hbuilt) hmem
    · rintro ⟨earlier, c, later, rfl, hnodup, hfields, hfault⟩
      have hc := hindex c (by simp)
      refine ⟨earlier, c, later, rfl, hnodup, fun d hd => ?_, ?_⟩
      · exact (hindex d (by simp [hd])).built_iff.2 (hfields d hd)
      · cases hfault with
        | field hs => exact .inl ((hc.failure_iff _).2 ⟨_, hs, rfl⟩)
        | key hown hmem => exact .inr ⟨hc.built_iff.2 hown, hmem, rfl⟩

end

/-! ## The indices of a collection -/

namespace GroupedMappings

variable {m : GroupedMappings} {key : MappedClass → String} {name : Symbol → String}

theorem isIndex_classes {nameOf : MappedClass → Outcome String}
    (hkey : ∀ c ∈ m.classes, nameOf c = .ok (key c)) :
    IsIndex (fun k => .of (.duplicate .className k)) key m.classes
      (indexInOrder .className (m.classes.map fun c => do return (← nameOf c, c))) := by
  have hentry : ∀ c ∈ m.classes,
      (do return (← nameOf c, c) : Outcome (String × MappedClass)) = entryOf key .ok c := by
    intro c hc
    rw [hkey c hc]
    rfl
  rw [indexInOrder_eq_scan hentry]
  exact isIndex_scan _ key m.classes

theorem isFieldIndex_fieldsByUnmappedName (hkey : ∀ c ∈ m.classes, c.unmappedName = .ok (key c))
    (hname : ∀ c ∈ m.classes, ∀ s ∈ c.fields, s.unmappedName = .ok (name s)) :
    IsFieldIndex key name m.classes m.fieldsByUnmappedName := by
  have hentry : ∀ c ∈ m.classes,
      (do return (← c.unmappedName, ← c.fieldsByUnmappedName) :
        Outcome (String × Table String Symbol)) =
      entryOf key MappedClass.fieldsByUnmappedName c := by
    intro c hc
    rw [hkey c hc]
    rfl
  rw [fieldsByUnmappedName, indexInOrder_eq_scan hentry]
  exact isFieldIndex_scan hkey hname

/-- **Indices are what a scan from the first class to the last finds.**  Where the classes have the
names they are indexed by, the index by unmapped or by mapped names is built if and only if no name
of a class repeats, and has every class once, in order, under its name.  Otherwise the failure names
the first class with the name of one before it.  Where the fields have names as well, their index is
built if and only if, in addition, no class repeats the name of a field; it has the fields of every
class, each once and in order, by their names.  Otherwise the failure says what is wrong with the
first class with which anything is: a field that repeats a name, the first one in the class, or else
the name of the class.  No index ever overwrites an entry. -/
theorem indices_are_scans (m : GroupedMappings) :
    (∀ key : MappedClass → String, (∀ c ∈ m.classes, c.unmappedName = .ok (key c)) →
      IsIndex (fun k => .of (.duplicate .className k)) key m.classes m.classesByUnmappedName) ∧
    (∀ key : MappedClass → String, (∀ c ∈ m.classes, c.mappedName = .ok (key c)) →
      IsIndex (fun k => .of (.duplicate .className k)) key m.classes m.classesByMappedName) ∧
    (∀ (key : MappedClass → String) (name : Symbol → String),
      (∀ c ∈ m.classes, c.unmappedName = .ok (key c)) →
      (∀ c ∈ m.classes, ∀ s ∈ c.fields, s.unmappedName = .ok (name s)) →
      IsFieldIndex key name m.classes m.fieldsByUnmappedName) ∧
    NeverOverwrites (fun classes => { m with classes }.classesByUnmappedName) ∧
    NeverOverwrites (fun classes => { m with classes }.classesByMappedName) ∧
    NeverOverwrites (fun classes => { m with classes }.fieldsByUnmappedName) :=
  ⟨fun _ => isIndex_classes, fun _ => isIndex_classes,
    fun _ _ => isFieldIndex_fieldsByUnmappedName, neverOverwrites_indexInOrder _,
    neverOverwrites_indexInOrder _, neverOverwrites_indexInOrder _⟩

/-! ### Several things that are wrong -/

/-- A class with fields that keep their names. -/
def classWithFields (unmapped mapped : String) (fields : List String) : MappedClass :=
  fields.foldl (fun c field => c.addField (.ofNames (.paired field field)))
    (.ofInfo (.ofNames (.paired unmapped mapped)))

/-- A class that repeats the names of two fields. -/
def twoRepeated : MappedClass :=
  classWithFields "a" "Avocado" ["x", "y", "y", "x"]

/-- The third class repeats two fields, and the unmapped name of the first; the last one repeats a
field, and the mapped name of the second. -/
def severalFaults : GroupedMappings :=
  .ofParts none
    [classWithFields "a" "Apple" ["x"], classWithFields "b" "Same" ["x", "y"], twoRepeated,
      classWithFields "c" "Same" ["z", "z"]]
    []

/-- The first two classes have one name, and after them comes a class that repeats a field. -/
def nameBeforeField : GroupedMappings :=
  .ofParts none
    [classWithFields "a" "Apple" ["x"], classWithFields "a" "Avocado" ["x"],
      classWithFields "b" "Same" ["z", "z"]]
    []

/-- The name, if there is one. -/
def nameOrEmpty (r : Outcome String) : String :=
  r.toOption.getD ""

/-- In the third class the field counts, and not the name; in the other collection the name counts,
since its class comes first.  The first two classes have an index of their fields. -/
theorem severalFaults_scanned :
    severalFaults.classesByUnmappedName = .error (.of (.duplicate .className "a")) ∧
    severalFaults.classesByMappedName = .error (.of (.duplicate .className "Same")) ∧
    severalFaults.fieldsByUnmappedName = .error (.of (.duplicate .field "a.y")) ∧
    nameBeforeField.fieldsByUnmappedName = .error (.of (.duplicate .className "a")) ∧
    ∃ t, { severalFaults with classes := severalFaults.classes.take 2 }.fieldsByUnmappedName =
        .ok t ∧
      t.keys = ["a", "b"] ∧ ∃ u, t.get? "b" = some u ∧ u.keys = ["x", "y"] := by
  have hunmapped := (indices_are_scans severalFaults).1
    (fun c => nameOrEmpty c.unmappedName) (by decide)
  have hmapped := (indices_are_scans severalFaults).2.1
    (fun c => nameOrEmpty c.mappedName) (by decide)
  have hfields := (indices_are_scans severalFaults).2.2.1
    (fun c => nameOrEmpty c.unmappedName) (fun s => nameOrEmpty s.unmappedName)
    (by decide) (by decide)
  have hname := (indices_are_scans nameBeforeField).2.2.1
    (fun c => nameOrEmpty c.unmappedName) (fun s => nameOrEmpty s.unmappedName)
    (by decide) (by decide)
  have hfirst := (indices_are_scans
      { severalFaults with classes := severalFaults.classes.take 2 }).2.2.1
    (fun c => nameOrEmpty c.unmappedName) (fun s => nameOrEmpty s.unmappedName)
    (by decide) (by decide)
  refine ⟨(hunmapped.failure_iff _).2 ?_, (hmapped.failure_iff _).2 ?_,
    (hfields.failure_iff _).2 ?_, (hname.failure_iff _).2 ?_, ?_⟩
  · exact ⟨_, ⟨severalFaults.classes.take 2, severalFaults.classes.drop 3, rfl, by decide,
      by decide⟩, by decide⟩
  · exact ⟨_, ⟨severalFaults.classes.take 3, [], rfl, by decide, by decide⟩, by decide⟩
  · have hrepeated : FirstRepeated (fun s => nameOrEmpty s.unmappedName)
        (twoRepeated.withId ⟨2⟩).fields (twoRepeated.withId ⟨2⟩).fields[2] :=
      ⟨(twoRepeated.withId ⟨2⟩).fields.take 2, (twoRepeated.withId ⟨2⟩).fields.drop 3, rfl,
        by decide, by decide⟩
    exact ⟨severalFaults.classes.take 2, twoRepeated.withId ⟨2⟩, severalFaults.classes.drop 3, rfl,
      by decide, by decide, .field hrepeated⟩
  · refine ⟨nameBeforeField.classes.take 1, _, nameBeforeField.classes.drop 2, rfl, by decide,
      by decide, ?_⟩
    exact .key (by decide) (by decide)
  · obtain ⟨t, ht⟩ := hfirst.built_iff.2 ⟨by decide, by decide⟩
    obtain ⟨u, hget, hu⟩ := hfirst.fields t ht
      ((classWithFields "b" "Same" ["x", "y"]).withId ⟨1⟩) (by decide)
    exact ⟨t, ht, (hfirst.keys t ht).trans (by decide), u, hget, hu.keys.trans (by decide)⟩

end GroupedMappings

end SymbolMap
