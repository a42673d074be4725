import CallTree.Proofs.Text.Collapse
import Mathlib.Data.List.Chain

/-!
# Texts with single spaces

A text is collapsed when its blanks are single spaces and none stands at an end.
Collapsing gives such a text, changes none, and only takes blanks away.
-/

namespace CallTree
namespace Text

/-- The blanks of a text are spaces, and no two of them are neighbours. -/
structure SingleSpaced (text : List Char) : Prop where
  spaces : ∀ c ∈ text, isBlank c = true → c = ' '
  apart : text.IsChain fun c d => isBlank c = false ∨ isBlank d = false

/-- A text starts with no blank. -/
def StartsVisible (text : List Char) : Prop :=
  ∀ c, text.head? = some c → isBlank c = false

/-- A text ends with no blank. -/
def EndsVisible (text : List Char) : Prop :=
  ∀ c, text.getLast? = some c → isBlank c = false

structure Collapsed (text : List Char) : Prop where
  single : SingleSpaced text
  starts : StartsVisible text
  ends : EndsVisible text

section SingleSpaced

variable {text front back : List Char} {c : Char}

theorem SingleSpaced.of_append (single : SingleSpaced (front ++ back)) :
    SingleSpaced front ∧ SingleSpaced back := by
  refine ⟨⟨?_, single.apart.left_of_append⟩, ⟨?_, single.apart.right_of_append⟩⟩
  · intro c member
    exact single.spaces c (List.mem_append_left _ member)
  · intro c member
    exact single.spaces c (List.mem_append_right _ member)

theorem SingleSpaced.append (frontSingle : SingleSpaced front) (backSingle : SingleSpaced back)
    (seam : EndsVisible front ∨ StartsVisible back) : SingleSpaced (front ++ back) := by
  refine ⟨List.forall_mem_append.mpr ⟨frontSingle.spaces, backSingle.spaces⟩, ?_⟩
  refine frontSingle.apart.append backSingle.apart fun c last d first => ?_
  exact seam.imp (fun ends => ends c last) fun starts => starts d first

theorem singleSpaced_singleton (space : isBlank c = true → c = ' ') : SingleSpaced [c] := by
  refine ⟨?_, List.isChain_singleton c⟩
  simpa using space

theorem singleSpaced_of_visible (visible : ∀ c ∈ text, isBlank c = false) : SingleSpaced text := by
  induction text with
  | nil => exact ⟨nofun, List.isChain_nil⟩
  | cons c text ih =>
      obtain ⟨cVisible, textVisible⟩ := List.forall_mem_cons.mp visible
      refine (singleSpaced_singleton (c := c) ?_).append (ih textVisible) (.inl ?_)
      · intro blank
        rw [cVisible] at blank
        cases blank
      · intro d last
        cases last
        exact cVisible

theorem startsVisible_cons (visible : isBlank c = false) : StartsVisible (c :: text) := by
  intro d first
  cases first
  exact visible

theorem endsVisible_append_singleton (text : List Char) (visible : isBlank c = false) :
    EndsVisible (text ++ [c]) := by
  intro d last
  rw [List.getLast?_concat] at last
  cases last
  exact visible

/-- In front of a space there is no other blank. -/
theorem SingleSpaced.endsVisible (single : SingleSpaced (front ++ ' ' :: back)) :
    EndsVisible front := by
  intro c last
  have seam := (List.isChain_append.mp single.apart).2.2 c last ' ' rfl
  exact seam.resolve_right (by decide)

end SingleSpaced

section Collapsed

variable {text front back : List Char}

theorem collapsed_of_visible (visible : ∀ c ∈ text, isBlank c = false) : Collapsed text := by
  refine ⟨singleSpaced_of_visible visible, ?_, ?_⟩
  · intro c first
    exact visible c (List.mem_of_head? first)
  · intro c last
    exact visible c (List.mem_of_getLast? last)

theorem collapsed_singleton {c : Char} (visible : isBlank c = false) : Collapsed [c] :=
  collapsed_of_visible (List.forall_mem_singleton.mpr visible)

theorem Collapsed.append (frontCollapsed : Collapsed front) (backCollapsed : Collapsed back) :
    Collapsed (front ++ back) := by
  refine ⟨frontCollapsed.single.append backCollapsed.single (.inl frontCollapsed.ends), ?_, ?_⟩
  · intro c first
    rw [List.head?_append, Option.or_eq_some_iff] at first
    rcases first with inFront | ⟨_, inBack⟩
    · exact frontCollapsed.starts c inFront
    · exact backCollapsed.starts c inBack
  · intro c last
    rw [List.getLast?_append, Option.or_eq_some_iff] at last
    rcases last with inBack | ⟨_, inFront⟩
    · exact backCollapsed.ends c inBack
    · exact frontCollapsed.ends c inFront

theorem Collapsed.append_space (frontCollapsed : Collapsed front) (frontNonempty : front ≠ [])
    (backCollapsed : Collapsed back) (backNonempty : back ≠ []) :
    Collapsed (front ++ ' ' :: back) := by
  have space : SingleSpaced [' '] := singleSpaced_singleton fun _ => rfl
  have behind := space.append backCollapsed.single (.inr backCollapsed.starts)
  refine ⟨frontCollapsed.single.append behind (.inl frontCollapsed.ends), ?_, ?_⟩
  · intro c first
    obtain ⟨d, later, rfl⟩ := List.exists_cons_of_ne_nil frontNonempty
    exact frontCollapsed.starts c first
  · intro c last
    rw [List.append_cons, List.getLast?_append, Option.or_eq_some_iff] at last
    rcases last with inBack | ⟨empty, _⟩
    · exact backCollapsed.ends c inBack
    · exact absurd (List.getLast?_eq_none_iff.mp empty) backNonempty

end Collapsed

section Collapse

variable {text : List Char}

theorem singleSpaced_squeezeFrom (inRun : Bool) (text : List Char) :
    SingleSpaced (squeezeFrom inRun text) ∧
      (inRun = true → StartsVisible (squeezeFrom inRun text)) := by
  induction text generalizing inRun with
  | nil => exact ⟨⟨nofun, List.isChain_nil⟩, fun _ => nofun⟩
  | cons c text ih =>
      rw [squeezeFrom]
      split
      · split
        · rename_i running
          subst running
          exact ih true
        · rename_i starting
          have space : SingleSpaced [' '] := singleSpaced_singleton fun _ => rfl
          have later := ih true
          exact ⟨space.append later.1 (.inr (later.2 rfl)), fun running => absurd running starting⟩
      · rename_i visible
        rw [Bool.not_eq_true] at visible
        have first : SingleSpaced [c] :=
          singleSpaced_of_visible (List.forall_mem_singleton.mpr visible)
        exact ⟨first.append (ih false).1 (.inl (endsVisible_append_singleton [] visible)),
          fun _ => startsVisible_cons visible⟩

theorem startsVisible_dropBlanks (text : List Char) : StartsVisible (dropBlanks text) := by
  intro c first
  have outside := List.head?_dropWhile_not isBlank text
  rw [dropBlanks] at first
  rw [first] at outside
  exact outside

theorem endsVisible_dropEndWhile (text : List Char) :
    EndsVisible (dropEndWhile isBlank text) := by
  intro c last
  have outside := List.head?_dropWhile_not isBlank text.reverse
  rw [dropEndWhile, List.getLast?_reverse] at last
  rw [last] at outside
  exact outside

theorem collapsed_collapse (text : List Char) : Collapsed (collapse text) := by
  have squeezed := (singleSpaced_squeezeFrom false text).1
  have starts := startsVisible_dropBlanks (squeezeFrom false text)
  have front := List.takeWhile_append_dropWhile (p := isBlank) (l := squeezeFrom false text)
  rw [← front] at squeezed
  obtain ⟨behind, _, trimmed⟩ :=
    exists_dropEndWhile_append isBlank (dropBlanks (squeezeFrom false text))
  have single : SingleSpaced (collapse text ++ behind) := by
    rw [collapse, trim, ← trimmed]
    exact squeezed.of_append.2
  refine ⟨single.of_append.1, ?_, endsVisible_dropEndWhile _⟩
  intro c first
  refine starts c ?_
  rw [trimmed, List.head?_append]
  exact Option.or_eq_some_iff.mpr (.inl first)

theorem SingleSpaced.squeezeFrom_eq (single : SingleSpaced text) (inRun : Bool)
    (starts : inRun = true → StartsVisible text) : squeezeFrom inRun text = text := by
  induction text generalizing inRun with
  | nil => rfl
  | cons c text ih =>
      have split : SingleSpaced ([c] ++ text) := single
      have later := split.of_append.2
      rw [squeezeFrom]
      split
      · rename_i blank
        have next : StartsVisible text := by
          intro d first
          have seam := single.apart.rel_head? first
          rw [blank] at seam
          exact seam.resolve_left Bool.false_ne_true.symm
        rw [if_neg, ih later true fun _ => next, single.spaces c List.mem_cons_self blank]
        intro running
        have visible := starts running c rfl
        rw [blank] at visible
        cases visible
      · rw [ih later false fun running => absurd running Bool.false_ne_true]

theorem Collapsed.trim_eq (collapsed : Collapsed text) : trim text = text := by
  have dropped : dropBlanks text = text := by
    cases text with
    | nil => rfl
    | cons c text => exact List.dropWhile_cons_of_neg (by simp [collapsed.starts c rfl])
  rw [trim, dropped]
  cases last : text.getLast? with
  | none =>
      rw [List.getLast?_eq_none_iff.mp last]
      rfl
  | some c => exact dropEndWhile_eq_self last (collapsed.ends c last)

theorem Collapsed.collapse_eq (collapsed : Collapsed text) : collapse text = text := by
  rw [collapse, collapsed.single.squeezeFrom_eq false
    fun running => absurd running Bool.false_ne_true, collapsed.trim_eq]

theorem Collapsed.collapse_space_cons (collapsed : Collapsed text) :
    collapse (' ' :: text) = text := by
  have squeezed : squeezeFrom false (' ' :: text) = ' ' :: text := by
    rw [squeezeFrom, if_pos (by decide), if_neg Bool.false_ne_true,
      collapsed.single.squeezeFrom_eq true fun _ => collapsed.starts]
  rw [collapse, squeezed, trim, dropBlanks, List.dropWhile_cons_of_pos (by decide)]
  exact collapsed.trim_eq

end Collapse

/-- The characters of a text that are no blanks. -/
def visible (text : List Char) : List Char :=
  text.filter fun c => !isBlank c

theorem visible_eq_nil {text : List Char} (blank : ∀ c ∈ text, isBlank c = true) :
    visible text = [] := by
  refine List.filter_eq_nil_iff.mpr fun c member => ?_
  simp [blank c member]

theorem visible_append (front back : List Char) :
    visible (front ++ back) = visible front ++ visible back :=
  List.filter_append front back

theorem visible_cons (c : Char) (text : List Char) :
    visible (c :: text) = if isBlank c = true then visible text else c :: visible text := by
  cases blank : isBlank c <;> simp [visible, blank]

theorem visible_squeezeFrom (inRun : Bool) (text : List Char) :
    visible (squeezeFrom inRun text) = visible text := by
  have space : isBlank ' ' = true := by decide
  induction text generalizing inRun with
  | nil => rfl
  | cons c text ih =>
      rw [squeezeFrom, visible_cons c text]
      split
      · split
        · exact ih true
        · rw [visible_cons, if_pos space, ih true]
      · rename_i shown
        rw [visible_cons, if_neg shown, ih false]

theorem visible_collapse (text : List Char) : visible (collapse text) = visible text := by
  have front := List.takeWhile_append_dropWhile (p := isBlank) (l := squeezeFrom false text)
  obtain ⟨behind, behindBlank, trimmed⟩ :=
    exists_dropEndWhile_append isBlank (dropBlanks (squeezeFrom false text))
  calc visible (collapse text)
      = visible (collapse text ++ behind) := by
        rw [visible_append, visible_eq_nil behindBlank, List.append_nil]
    _ = visible (dropBlanks (squeezeFrom false text)) := by rw [collapse, trim, ← trimmed]
    _ = visible (squeezeFrom false text) := by
        nth_rewrite 2 [← front]
        rw [visible_append, visible_eq_nil fun c => List.mem_takeWhile_imp, List.nil_append]
        rfl
    _ = visible text := visible_squeezeFrom false text

end Text
end CallTree
