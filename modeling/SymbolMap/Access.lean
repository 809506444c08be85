/-!
# Access flags

The access flags of a field or method are the bits of a 16-bit word.  Of two inherited members the
more visible one wins, and `Access.visibility` says which of two levels a member has: public and
protected members are visible in every subclass, all others may not be.
-/

namespace SymbolMap

/-- A set of access flags. -/
structure Access where
  bits : UInt16
deriving DecidableEq

/-- How far a member is visible in subclasses. -/
inductive Visibility where
  | restricted
  | inheritable
deriving DecidableEq

namespace Access

/-- Visible everywhere.  This is also what is assumed of a member nobody declares. -/
def publicFlag : Access := ⟨0x0001⟩

/-- Visible in the declaring class only. -/
def privateFlag : Access := ⟨0x0002⟩

/-- Visible in the package and in subclasses. -/
def protectedFlag : Access := ⟨0x0004⟩

/-- Belongs to the class and not to its instances. -/
def staticFlag : Access := ⟨0x0008⟩

/-- Made by a compiler and not present in the source text. -/
def syntheticFlag : Access := ⟨0x1000⟩

/-- Are all flags of `b` set in `a`? -/
def contains (a b : Access) : Bool :=
  a.bits &&& b.bits == b.bits

/-- All flags of both. -/
def union (a b : Access) : Access :=
  ⟨a.bits ||| b.bits⟩

/-- Flags with their names, in the order they are listed in.  Two bits have a name for fields and
one for methods. -/
def named : List (Access × String) := [
  (publicFlag, "public"),
  (privateFlag, "private"),
  (protectedFlag, "protected"),
  (staticFlag, "static"),
  (⟨0x0010⟩, "final"),
  (⟨0x0020⟩, "synchronised"),
  (⟨0x0040⟩, "volatile/bridge"),
  (⟨0x0080⟩, "transient/varargs"),
  (⟨0x0100⟩, "native"),
  (⟨0x0400⟩, "abstract"),
  (⟨0x0800⟩, "strict"),
  (syntheticFlag, "synthetic"),
  (⟨0x4000⟩, "enum")]

/-- The names of the flags that are set, in braces. -/
def describe (a : Access) : String :=
  let words := (named.filter fun f => a.contains f.1).map fun f => f.2 ++ " "
  "AccessFlags \x7b " ++ String.join words ++ "\x7d"

/-- Public and protected members are inheritable, all others restricted. -/
def visibility (a : Access) : Visibility :=
  if a.contains publicFlag || a.contains protectedFlag then .inheritable else .restricted

end Access

namespace Visibility

/-- The level as a number, higher for more visible. -/
def rank : Visibility → Nat
  | .restricted => 0
  | .inheritable => 1

/-- The name of the level. -/
def describe : Visibility → String
  | .restricted => "Restricted"
  | .inheritable => "Inheritable"

theorem rank_injective {a b : Visibility} (h : a.rank = b.rank) : a = b := by
  cases a <;> cases b <;> simp_all [rank]

end Visibility

end SymbolMap
