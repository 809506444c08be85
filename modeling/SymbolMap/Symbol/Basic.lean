import SymbolMap.Naming.Basic
import SymbolMap.Table

/-!
# Symbols

A `Symbol` is something that has a different name on each side of a mapping: a class, a field, a
method, a local variable or a package.  Beside its names it carries at most one `Attribute` of each
kind, and one of the kinds, the table of local variables, holds symbols again.

The attributes without symbols in them are the fields of `Tags`.  A table of local variables is a
list of entries, and only by being `Sorted` it is a finite map: an index then has one variable, and
the variables determine the list.  A symbol is a nested type, so it cannot hold a proof of that.
`Symbol.Ordered` says it instead, of the table of a symbol and of the tables of all local variables
in it; what is put together by `LocalTable.insert` and `Symbol.set` is ordered.

`Symbol.rec_locals` is the induction over nested local variables.
-/

namespace SymbolMap

/-- The position of a class in its collection. -/
structure ClassId where
  index : Nat
deriving DecidableEq

/-- The position as messages show it. -/
def ClassId.describe (c : ClassId) : String :=
  "ClassId(" ++ toString c.index ++ ")"

/-- The part of a distributed program a mapping applies to. -/
inductive Side where
  | client
  | server
  | both
deriving DecidableEq

/-- A descriptor together with the namespace its class names are taken from. -/
structure NamespacedDescriptor where
  writtenIn : NamespaceId
  desc : String
deriving DecidableEq

/-- The kinds of attributes. -/
inductive AttributeKind where
  | unmappedDescriptor
  | mappedDescriptor
  | namespacedDescriptor
  | documentation
  | owner
  | isStatic
  | locals
  | side
deriving DecidableEq

namespace AttributeKind

/-- All kinds, in the order attributes are listed in. -/
def all : List AttributeKind :=
  [unmappedDescriptor, mappedDescriptor, namespacedDescriptor, documentation, owner, isStatic,
    locals, side]

/-- The name of the kind as messages show it. -/
def describe : AttributeKind → String
  | unmappedDescriptor => "UnmappedDescriptor"
  | mappedDescriptor => "MappedDescriptor"
  | namespacedDescriptor => "NamespacedDescriptor"
  | documentation => "Documented"
  | owner => "Owned"
  | isStatic => "StaticIdentifiable"
  | locals => "LocalVariableTable"
  | side => "SideSpecific"

end AttributeKind

/-- The attributes that hold no symbols. -/
structure Tags where
  /-- The descriptor of a member, with unmapped class names. -/
  unmappedDescriptor : Option String := none
  /-- The descriptor of a member, with mapped class names. -/
  mappedDescriptor : Option String := none
  /-- The descriptor of a member of a collection with namespaces. -/
  namespacedDescriptor : Option NamespacedDescriptor := none
  /-- A text for readers. -/
  documentation : Option String := none
  /-- The class that declares the member. -/
  owner : Option ClassId := none
  /-- Whether a method is static. -/
  isStatic : Option Bool := none
  /-- The part of the program the mapping applies to. -/
  side : Option Side := none
deriving DecidableEq

/-- A renamed symbol: its names, its plain attributes and its local variables by index. -/
inductive Symbol where
  | mk (names : SymbolNames) (tags : Tags) (locals : Option (List (Nat × Symbol)))

/-- Local variables by their indices, which ascend in a table that is `LocalTable.Sorted`. -/
abbrev LocalTable := List (Nat × Symbol)

/-- A piece of information on a symbol. -/
inductive Attribute where
  | unmappedDescriptor (desc : String)
  | mappedDescriptor (desc : String)
  | namespacedDescriptor (desc : NamespacedDescriptor)
  | documentation (text : String)
  | owner (id : ClassId)
  | isStatic (value : Bool)
  | locals (table : LocalTable)
  | side (side : Side)

/-- The kind of an attribute. -/
def Attribute.kind : Attribute → AttributeKind
  | .unmappedDescriptor _ => .unmappedDescriptor
  | .mappedDescriptor _ => .mappedDescriptor
  | .namespacedDescriptor _ => .namespacedDescriptor
  | .documentation _ => .documentation
  | .owner _ => .owner
  | .isStatic _ => .isStatic
  | .locals _ => .locals
  | .side _ => .side

namespace LocalTable

/-- Enters a variable at its place; a variable with the same index is replaced. -/
def insert (index : Nat) (s : Symbol) : LocalTable → LocalTable
  | [] => [(index, s)]
  | e :: es =>
    if index < e.1 then (index, s) :: e :: es
    else if index = e.1 then (index, s) :: es
    else e :: insert index s es

/-- The variable with the given index. -/
def get? (t : LocalTable) (index : Nat) : Option Symbol :=
  t.lookup index

/-- Indices ascend. -/
def Sorted (t : LocalTable) : Prop :=
  t.Pairwise fun a b => a.1 < b.1

variable {index i : Nat} {s v : Symbol} {t : LocalTable}

theorem sorted_nil : Sorted [] := List.Pairwise.nil

/-- What is in a table after an insertion was put there or was in it before. -/
theorem mem_of_mem_insert {e : Nat × Symbol} (h : e ∈ insert index s t) :
    e = (index, s) ∨ e ∈ t := by
  induction t with
  | nil => exact .inl (List.mem_singleton.1 h)
  | cons e' es ih =>
    rw [insert] at h
    split at h
    · exact List.mem_cons.1 h
    · split at h
      · exact (List.mem_cons.1 h).imp_right (List.mem_cons_of_mem _)
      · rcases List.mem_cons.1 h with rfl | h
        · exact .inr List.mem_cons_self
        · exact (ih h).imp_right (List.mem_cons_of_mem _)

/-- Insertion keeps the order. -/
theorem Sorted.insert (h : Sorted t) (index : Nat) (s : Symbol) : Sorted (t.insert index s) := by
  induction t with
  | nil => simp [LocalTable.insert, Sorted]
  | cons e es ih =>
    obtain ⟨hlt, hes⟩ := List.pairwise_cons.1 h
    rw [LocalTable.insert]
    split
    · rename_i hi
      refine List.pairwise_cons.2 ⟨fun a ha => ?_, h⟩
      rcases List.mem_cons.1 ha with rfl | ha
      · exact hi
      · exact Nat.lt_trans hi (hlt a ha)
    · split
      · rename_i hi
        exact List.pairwise_cons.2 ⟨fun a ha => hi ▸ hlt a ha, hes⟩
      · refine List.pairwise_cons.2 ⟨fun a ha => ?_, ih hes⟩
        rcases mem_of_mem_insert ha with rfl | ha
        · omega
        · exact hlt a ha

theorem get?_cons {e : Nat × Symbol} :
    get? (e :: t) i = if i = e.1 then some e.2 else t.get? i := by
  rw [get?, List.lookup_cons]
  by_cases h : i = e.1
  · simp [h]
  · have hne : (i == e.1) = false := by simpa using h
    simp [hne, h, get?]

/-- An insertion changes the variable at one index. -/
theorem get?_insert : (insert index s t).get? i = if i = index then some s else t.get? i := by
  induction t with
  | nil => rw [insert, get?_cons]
  | cons e es ih =>
    rw [insert]
    split
    · rw [get?_cons]
    · split
      · rename_i heq
        rw [get?_cons, get?_cons, ← heq]
        by_cases h : i = index
        · simp [h]
        · simp [h]
      · rename_i hne
        rw [get?_cons, ih, get?_cons]
        by_cases h : i = e.1
        · simp [h, Ne.symm hne]
        · simp [h]

theorem Sorted.nodup (h : Sorted t) : (t.map Prod.fst).Nodup :=
  List.pairwise_map.2 (h.imp fun hlt => Nat.ne_of_lt hlt)

/-- An index of a sorted table has one variable. -/
theorem Sorted.get?_eq_some_iff (h : Sorted t) : t.get? i = some v ↔ (i, v) ∈ t :=
  Table.get?_eq_some_iff (t := ⟨t, h.nodup⟩)

/-- Sorted tables with the same variables are equal. -/
theorem Sorted.ext {t' : LocalTable} (h : Sorted t) (h' : Sorted t')
    (hget : ∀ i, t.get? i = t'.get? i) : t = t' := by
  have hmem : ∀ e : Nat × Symbol, e ∈ t ↔ e ∈ t' := fun e => by
    rw [← h.get?_eq_some_iff, ← h'.get?_eq_some_iff, hget]
  have hperm : t.Perm t' := (List.perm_ext_iff_of_nodup
    (h.imp fun hlt heq => Nat.ne_of_lt hlt (congrArg Prod.fst heq))
    (h'.imp fun hlt heq => Nat.ne_of_lt hlt (congrArg Prod.fst heq))).2 hmem
  exact hperm.eq_of_pairwise (fun a b _ _ hab hba => absurd hba (Nat.lt_asymm hab)) h h'

/-- It makes no difference in which order variables are entered. -/
theorem Sorted.insert_comm {index' : Nat} {s' : Symbol} (h : Sorted t) (hne : index ≠ index') :
    (t.insert index s).insert index' s' = (t.insert index' s').insert index s := by
  refine ((h.insert index s).insert index' s').ext ((h.insert index' s').insert index s) fun i => ?_
  rw [get?_insert, get?_insert, get?_insert, get?_insert]
  by_cases hi : i = index
  · simp [hi, hne]
  · simp [hi]

/-- Some of the entries of a sorted table, perhaps with other variables, are a sorted table. -/
theorem Sorted.of_sublist {t' : LocalTable} (h : Sorted t)
    (hsub : (t'.map Prod.fst).Sublist (t.map Prod.fst)) : Sorted t' :=
  List.pairwise_map.1 ((List.pairwise_map.2 h).sublist hsub)

end LocalTable

namespace Symbol

/-- How the symbol is named. -/
def names : Symbol → SymbolNames
  | mk names _ _ => names

/-- The attributes that hold no symbols. -/
def tags : Symbol → Tags
  | mk _ tags _ => tags

/-- The table of local variables. -/
def locals : Symbol → Option LocalTable
  | mk _ _ locals => locals

/-- A symbol without attributes. -/
def ofNames (names : SymbolNames) : Symbol :=
  mk names {} none

/-- The symbol under other names. -/
def withNames (s : Symbol) (names : SymbolNames) : Symbol :=
  mk names s.tags s.locals

/-- The symbol with other plain attributes. -/
def withTags (s : Symbol) (tags : Tags) : Symbol :=
  mk s.names tags s.locals

/-- The attribute of a kind. -/
def attribute? (s : Symbol) : AttributeKind → Option Attribute
  | .unmappedDescriptor => s.tags.unmappedDescriptor.map .unmappedDescriptor
  | .mappedDescriptor => s.tags.mappedDescriptor.map .mappedDescriptor
  | .namespacedDescriptor => s.tags.namespacedDescriptor.map .namespacedDescriptor
  | .documentation => s.tags.documentation.map .documentation
  | .owner => s.tags.owner.map .owner
  | .isStatic => s.tags.isStatic.map .isStatic
  | .locals => s.locals.map .locals
  | .side => s.tags.side.map .side

/-- All attributes, in the order of their kinds. -/
def attributes (s : Symbol) : List Attribute :=
  AttributeKind.all.filterMap s.attribute?

/-- Adds an attribute, replacing the one of the same kind. -/
def set (s : Symbol) : Attribute → Symbol
  | .unmappedDescriptor desc => s.withTags { s.tags with unmappedDescriptor := some desc }
  | .mappedDescriptor desc => s.withTags { s.tags with mappedDescriptor := some desc }
  | .namespacedDescriptor desc => s.withTags { s.tags with namespacedDescriptor := some desc }
  | .documentation text => s.withTags { s.tags with documentation := some text }
  | .owner id => s.withTags { s.tags with owner := some id }
  | .isStatic value => s.withTags { s.tags with isStatic := some value }
  | .locals table => mk s.names s.tags (some table)
  | .side side => s.withTags { s.tags with side := some side }

/-- Takes the attribute of a kind away. -/
def erase (s : Symbol) : AttributeKind → Symbol
  | .unmappedDescriptor => s.withTags { s.tags with unmappedDescriptor := none }
  | .mappedDescriptor => s.withTags { s.tags with mappedDescriptor := none }
  | .namespacedDescriptor => s.withTags { s.tags with namespacedDescriptor := none }
  | .documentation => s.withTags { s.tags with documentation := none }
  | .owner => s.withTags { s.tags with owner := none }
  | .isStatic => s.withTags { s.tags with isStatic := none }
  | .locals => mk s.names s.tags none
  | .side => s.withTags { s.tags with side := none }

/-- An added attribute is the one of its kind. -/
@[simp] theorem attribute?_set (s : Symbol) (a : Attribute) :
    (s.set a).attribute? a.kind = some a := by
  cases a <;> rfl

/-- Adding an attribute leaves those of other kinds alone. -/
theorem attribute?_set_of_ne (s : Symbol) {a : Attribute} {k : AttributeKind}
    (h : k ≠ a.kind) : (s.set a).attribute? k = s.attribute? k := by
  cases a <;> cases k <;> simp_all [Attribute.kind, set, attribute?, withTags, tags, locals]

/-- After taking a kind away there is none of it. -/
@[simp] theorem attribute?_erase (s : Symbol) (k : AttributeKind) :
    (s.erase k).attribute? k = none := by
  cases k <;> rfl

/-- Taking a kind away leaves the others alone. -/
theorem attribute?_erase_of_ne (s : Symbol) {j k : AttributeKind} (h : k ≠ j) :
    (s.erase j).attribute? k = s.attribute? k := by
  cases j <;> cases k <;> simp_all [erase, attribute?, withTags, tags, locals]

/-- Induction over nested local variables: a property holds of every symbol if it passes from the
local variables of a symbol to the symbol. -/
theorem rec_locals {P : Symbol → Prop}
    (h : ∀ names tags locals, (∀ t, locals = some t → ∀ e ∈ t, P e.2) → P (mk names tags locals))
    (s : Symbol) : P s :=
  @Symbol.rec P
    (fun locals => ∀ t, locals = some t → ∀ e ∈ t, P e.2)
    (fun t => ∀ e ∈ t, P e.2)
    (fun e => P e.2)
    (fun names tags locals ih => h names tags locals ih)
    (fun _ ht => nomatch ht)
    (fun _ ih _ ht => Option.some.inj ht ▸ ih)
    (fun _ he => nomatch he)
    (fun _ _ ihe iht e he => by
      rcases List.mem_cons.1 he with rfl | he
      · exact ihe
      · exact iht e he)
    (fun _ _ ih => ih)
    s

/-! ### Local variables in order -/

/-- The table of local variables is sorted, and so are the tables of all symbols in it. -/
inductive Ordered : Symbol → Prop where
  | intro {s : Symbol} (sorted : ∀ table, s.locals = some table → LocalTable.Sorted table)
    (nested : ∀ table, s.locals = some table → ∀ e ∈ table, Ordered e.2) : Ordered s

end Symbol

/-- A sorted table of ordered symbols. -/
structure LocalTable.Ordered (t : LocalTable) : Prop where
  sorted : t.Sorted
  nested : ∀ e ∈ t, e.2.Ordered

namespace Symbol

variable {s s' : Symbol} {table : LocalTable}

theorem ordered_iff : s.Ordered ↔ ∀ table, s.locals = some table → table.Ordered := by
  constructor
  · intro h table htable
    obtain ⟨sorted, nested⟩ := h
    exact ⟨sorted table htable, nested table htable⟩
  · intro h
    exact ⟨fun table htable => (h table htable).sorted, fun table htable => (h table htable).nested⟩

theorem Ordered.locals (h : s.Ordered) (htable : s.locals = some table) : table.Ordered :=
  ordered_iff.1 h table htable

/-- Whether a symbol is ordered depends on its local variables only. -/
theorem Ordered.of_locals_eq (h : s.Ordered) (heq : s'.locals = s.locals) : s'.Ordered :=
  ordered_iff.2 fun _ htable => h.locals (heq ▸ htable)

theorem ordered_ofNames (names : SymbolNames) : (ofNames names).Ordered :=
  ordered_iff.2 fun _ htable => nomatch htable

/-- Adding an attribute keeps the order, unless it is a table that is not in order itself. -/
theorem Ordered.set (h : s.Ordered) {a : Attribute}
    (ha : ∀ table, a = .locals table → table.Ordered) : (s.set a).Ordered := by
  cases a with
  | locals table =>
    refine ordered_iff.2 fun table' htable' => ?_
    obtain rfl : table = table' := Option.some.inj htable'
    exact ha table rfl
  | _ => exact h.of_locals_eq rfl

theorem Ordered.erase (h : s.Ordered) (k : AttributeKind) : (s.erase k).Ordered := by
  cases k with
  | locals => exact ordered_iff.2 fun _ htable => nomatch htable
  | _ => exact h.of_locals_eq rfl

end Symbol

namespace LocalTable

theorem ordered_nil : Ordered [] :=
  ⟨sorted_nil, fun _ he => nomatch he⟩

theorem Ordered.insert {t : LocalTable} (h : t.Ordered) (index : Nat) {s : Symbol}
    (hs : s.Ordered) : (t.insert index s).Ordered := by
  refine ⟨h.sorted.insert index s, fun e he => ?_⟩
  rcases mem_of_mem_insert he with rfl | he
  · exact hs
  · exact h.nested e he

end LocalTable

namespace Symbol

mutual

/-- Equality of symbols is decided by comparing names, attributes and local variables. -/
def decEq : (a b : Symbol) → Decidable (a = b)
  | mk n t none, mk n' t' none =>
    if h : n = n' ∧ t = t' then isTrue (by rw [h.1, h.2])
    else isFalse fun e => h (by cases e; exact ⟨rfl, rfl⟩)
  | mk _ _ none, mk _ _ (some _) => isFalse nofun
  | mk _ _ (some _), mk _ _ none => isFalse nofun
  | mk n t (some ls), mk n' t' (some ls') =>
    match decEqLocals ls ls' with
    | isTrue hl =>
      if h : n = n' ∧ t = t' then isTrue (by rw [h.1, h.2, hl])
      else isFalse fun e => h (by cases e; exact ⟨rfl, rfl⟩)
    | isFalse hl => isFalse fun e => hl (by cases e; rfl)

/-- Equality of tables of local variables is decided entry by entry. -/
def decEqLocals : (a b : List (Nat × Symbol)) → Decidable (a = b)
  | [], [] => isTrue rfl
  | [], _ :: _ => isFalse nofun
  | _ :: _, [] => isFalse nofun
  | (i, s) :: es, (j, s') :: es' =>
    match decEq s s' with
    | isFalse hs => isFalse fun e => hs (by cases e; rfl)
    | isTrue hs =>
      match decEqLocals es es' with
      | isFalse hl => isFalse fun e => hl (by cases e; rfl)
      | isTrue hl =>
        if hi : i = j then isTrue (by rw [hi, hs, hl])
        else isFalse fun e => hi (by cases e; rfl)

end

instance : DecidableEq Symbol := decEq

end Symbol

end SymbolMap
