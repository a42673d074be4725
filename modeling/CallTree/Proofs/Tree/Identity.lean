import CallTree.Proofs.Text.Codes
import CallTree.Proofs.Text.Pieces
import CallTree.Tree
import Std.Data.String.ToInt

/-!
# Identities of occurrences

The text that identifies a method joins its file, its class, its name and its
line.  A path may hold colons, dots and digits in any arrangement, so the parts
are found from the end: no line has a colon, no name a dot, and no class a colon.
An identifier is a digest of this text, so that two occurrences with one
identifier lie at one place or have texts whose digests collide.
-/

namespace CallTree

/-- Two byte strings with one digest. -/
def Digest.Collide (first second : List UInt8) : Prop :=
  first ≠ second ∧ hash first = hash second

instance : DecidableRel Digest.Collide := fun first second =>
  inferInstanceAs (Decidable (first ≠ second ∧ Digest.hash first = Digest.hash second))

/-- Where a method lies. -/
structure Location where
  file : String
  className : String
  method : String
  line : Int
  deriving DecidableEq, Repr

namespace Occurrence

def location (occurrence : Occurrence) : Location where
  file := occurrence.file
  className := occurrence.className
  method := occurrence.method
  line := occurrence.line

/-- The names do not hold the separators that stand in front of them or behind
them. -/
structure HasPlainNames (occurrence : Occurrence) : Prop where
  dot_method : '.' ∉ occurrence.method.toList
  colon_method : ':' ∉ occurrence.method.toList
  colon_className : ':' ∉ occurrence.className.toList

instance (occurrence : Occurrence) : Decidable occurrence.HasPlainNames :=
  decidable_of_iff
    ('.' ∉ occurrence.method.toList ∧ ':' ∉ occurrence.method.toList ∧
      ':' ∉ occurrence.className.toList)
    ⟨fun ⟨dot, colon, className⟩ => ⟨dot, colon, className⟩,
      fun ⟨dot, colon, className⟩ => ⟨dot, colon, className⟩⟩

/-- The bytes that an identifier is a digest of. -/
def identityBytes (occurrence : Occurrence) : List UInt8 :=
  occurrence.identity.toUTF8.toList

variable {first second : Occurrence}

theorem toList_identity (occurrence : Occurrence) :
    occurrence.identity.toList =
      occurrence.file.toList ++ ':' :: occurrence.className.toList ++
        '.' :: occurrence.method.toList ++ ':' :: occurrence.line.repr.toList := by
  simp [identity]

theorem identity_eq_of_location_eq (same : first.location = second.location) :
    first.identity = second.identity := by
  rw [location, location, Location.mk.injEq] at same
  obtain ⟨files, classes, methods, lines⟩ := same
  rw [identity, identity, files, classes, methods, lines]

/-- The identity of a method with plain names can be read from its end. -/
theorem location_eq_of_identity_eq (firstPlain : first.HasPlainNames)
    (secondPlain : second.HasPlainNames) (same : first.identity = second.identity) :
    first.location = second.location := by
  have inLine (number : Int) : ':' ∉ number.repr.toList := by
    intro member
    exact absurd (Text.isDigit_or_of_mem_repr member) (by decide)
  have texts := congrArg String.toList same
  rw [toList_identity, toList_identity] at texts
  -- Only the last colon is looked for, so one in a name would do no harm.
  obtain ⟨named, lines⟩ := Text.append_cons_inj_last (inLine _) (inLine _) texts
  obtain ⟨placed, methods⟩ :=
    Text.append_cons_inj_last firstPlain.dot_method secondPlain.dot_method named
  obtain ⟨files, classes⟩ :=
    Text.append_cons_inj_last firstPlain.colon_className secondPlain.colon_className placed
  rw [location, location, Location.mk.injEq]
  refine ⟨?_, ?_, ?_, ?_⟩
  · exact String.toList_injective files
  · exact String.toList_injective classes
  · exact String.toList_injective methods
  · exact Int.repr_injective (String.toList_injective lines)

theorem identifier_eq_of_location_eq (same : first.location = second.location) :
    first.identifier = second.identifier := by
  rw [identifier, identifier, identity_eq_of_location_eq same]

theorem hash_eq_of_identifier_eq (same : first.identifier = second.identifier) :
    Digest.hash first.identityBytes = Digest.hash second.identityBytes := by
  have fits (digest : UInt64) : digest.toNat < 16 ^ 16 := digest.toNat_lt
  apply UInt64.toNat_inj.mp
  apply Text.hexDigits_inj (fits _) (fits _)
  exact String.ofList_injective same

/-- Nothing but a collision gives two locations one identifier. -/
theorem location_eq_or_collide (firstPlain : first.HasPlainNames)
    (secondPlain : second.HasPlainNames) (same : first.identifier = second.identifier) :
    first.location = second.location ∨
      Digest.Collide first.identityBytes second.identityBytes := by
  by_cases bytes : first.identityBytes = second.identityBytes
  · left
    apply location_eq_of_identity_eq firstPlain secondPlain
    exact Text.eq_of_toUTF8_toList_eq bytes
  · exact .inr ⟨bytes, hash_eq_of_identifier_eq same⟩

end Occurrence

namespace Tree

/-- All methods of the tree have plain names. -/
def HasPlainNames (tree : Tree) : Prop :=
  ∀ occurrence ∈ tree.preorder, occurrence.HasPlainNames

instance (tree : Tree) : Decidable tree.HasPlainNames :=
  inferInstanceAs (Decidable (∀ occurrence ∈ tree.preorder, occurrence.HasPlainNames))

/-- No two identities in the tree have colliding digests. -/
def DigestsApart (tree : Tree) : Prop :=
  ∀ first ∈ tree.preorder, ∀ second ∈ tree.preorder,
    ¬ Digest.Collide first.identityBytes second.identityBytes

instance (tree : Tree) : Decidable tree.DigestsApart :=
  inferInstanceAs (Decidable (∀ first ∈ tree.preorder, ∀ second ∈ tree.preorder,
    ¬ Digest.Collide first.identityBytes second.identityBytes))

theorem identifier_eq_iff_location_eq {tree : Tree} (plain : tree.HasPlainNames)
    (apart : tree.DigestsApart) {first second : Occurrence} (firstMem : first ∈ tree.preorder)
    (secondMem : second ∈ tree.preorder) :
    first.identifier = second.identifier ↔ first.location = second.location := by
  constructor
  · intro same
    rcases Occurrence.location_eq_or_collide (plain first firstMem) (plain second secondMem)
      same with located | collide
    · exact located
    · exact absurd collide (apart first firstMem second secondMem)
  · exact Occurrence.identifier_eq_of_location_eq

end Tree
end CallTree
