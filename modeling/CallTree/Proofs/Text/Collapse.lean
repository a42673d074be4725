import CallTree.Proofs.Extent.Search

/-!
# Collapsed texts

Collapsing a text only changes its blanks.  So where a name stands before a
parenthesis in the collapsed text, it does so in the text itself.
-/

namespace CallTree
namespace Text

open CallSite (IsGap)

theorem isIdentifierPart_eq_false_of_isBlank {c : Char} (blank : isBlank c = true) :
    isIdentifierPart c = false := by
  have notDollar : c ≠ '$' := by
    rintro rfl
    exact absurd blank (by decide)
  simp [isIdentifierPart, isWord_eq_false_of_isBlank blank, notDollar]

theorem isBlank_eq_false_of_isIdentifierPart {c : Char} (part : isIdentifierPart c = true) :
    isBlank c = false := by
  by_contra blank
  have apart := isIdentifierPart_eq_false_of_isBlank (Bool.not_eq_false _ ▸ blank)
  rw [part] at apart
  cases apart

theorem EndsApart.of_isGap {gap : List Char} (blank : IsGap gap) : EndsApart gap :=
  fun c last => isIdentifierPart_eq_false_of_isBlank (blank c (List.mem_of_getLast? last))

theorem EndsApart.append {front text : List Char} (frontApart : EndsApart front)
    (apart : EndsApart text) : EndsApart (front ++ text) := by
  cases text with
  | nil =>
      rw [List.append_nil]
      exact frontApart
  | cons c text => exact (endsApart_append (by simp)).mpr apart

section Squeeze

variable {inRun : Bool} {text front behind : List Char} {c : Char}

theorem squeezeFrom_append_visible (visible : isBlank c = false) (inRun : Bool)
    (text : List Char) :
    squeezeFrom inRun (text ++ [c]) = squeezeFrom inRun text ++ [c] := by
  induction text generalizing inRun with
  | nil => simp [squeezeFrom, visible]
  | cons d text ih =>
      rw [List.cons_append, squeezeFrom, squeezeFrom]
      split
      · split
        · exact ih true
        · rw [ih true, List.cons_append]
      · rw [ih false, List.cons_append]

theorem mem_squeezeFrom (visible : isBlank c = false) (member : c ∈ text) (inRun : Bool) :
    c ∈ squeezeFrom inRun text := by
  induction text generalizing inRun with
  | nil => cases member
  | cons d text ih =>
      rw [squeezeFrom]
      rcases List.mem_cons.mp member with rfl | later
      · rw [if_neg (by simp [visible])]
        exact List.mem_cons_self
      · split
        · split
          · exact ih later true
          · exact List.mem_cons_of_mem _ (ih later true)
        · exact List.mem_cons_of_mem _ (ih later false)

theorem isGap_of_squeezeFrom (blank : IsGap (squeezeFrom inRun text)) : IsGap text := by
  intro c member
  by_contra visible
  exact visible (blank c (mem_squeezeFrom (Bool.eq_false_iff.mpr visible) member inRun))

theorem EndsApart.of_squeezeFrom (apart : EndsApart (squeezeFrom inRun text)) :
    EndsApart text := by
  intro c last
  cases visible : isBlank c with
  | true => exact isIdentifierPart_eq_false_of_isBlank visible
  | false =>
      obtain ⟨front, rfl⟩ := List.getLast?_eq_some_iff.mp last
      rw [squeezeFrom_append_visible visible] at apart
      exact apart c (by simp)

/-- A squeezed text is cut where the text itself can be cut. -/
theorem exists_cut_of_squeezeFrom (squeezed : squeezeFrom inRun text = front ++ behind) :
    ∃ rawFront rawBehind midRun, text = rawFront ++ rawBehind ∧
      squeezeFrom inRun rawFront = front ∧ squeezeFrom midRun rawBehind = behind := by
  induction text generalizing inRun front with
  | nil =>
      obtain ⟨rfl, rfl⟩ := List.nil_eq_append_iff.mp squeezed
      exact ⟨[], [], inRun, rfl, rfl, rfl⟩
  | cons c text ih =>
      cases front with
      | nil => exact ⟨[], c :: text, inRun, rfl, rfl, squeezed⟩
      | cons d front =>
          have further {after : Bool}
              (taken : ∀ rawFront, squeezeFrom after rawFront = front →
                squeezeFrom inRun (c :: rawFront) = d :: front)
              (later : squeezeFrom after text = front ++ behind) :
              ∃ rawFront rawBehind midRun, c :: text = rawFront ++ rawBehind ∧
                squeezeFrom inRun rawFront = d :: front ∧
                  squeezeFrom midRun rawBehind = behind := by
            obtain ⟨rawFront, rawBehind, midRun, rfl, frontEq, behindEq⟩ := ih later
            exact ⟨c :: rawFront, rawBehind, midRun, rfl, taken rawFront frontEq, behindEq⟩
          rw [squeezeFrom] at squeezed
          split at squeezed
          · rename_i blank
            split at squeezed
            · obtain ⟨rawFront, rawBehind, midRun, rfl, frontEq, behindEq⟩ := ih squeezed
              refine ⟨c :: rawFront, rawBehind, midRun, rfl, ?_, behindEq⟩
              rename_i running
              rw [squeezeFrom, if_pos blank, if_pos running, frontEq]
            · rename_i starting
              obtain ⟨rfl, later⟩ := List.cons.inj squeezed
              refine further (fun rawFront frontEq => ?_) later
              rw [squeezeFrom, if_pos blank, if_neg starting, frontEq]
          · rename_i visible
            obtain ⟨rfl, later⟩ := List.cons.inj squeezed
            refine further (fun rawFront frontEq => ?_) later
            rw [squeezeFrom, if_neg visible, frontEq]

theorem exists_of_squeezeFrom_eq_cons (visible : isBlank c = false)
    (squeezed : squeezeFrom inRun text = c :: behind) :
    ∃ gap rawBehind, IsGap gap ∧ text = gap ++ c :: rawBehind ∧
      squeezeFrom false rawBehind = behind := by
  induction text generalizing inRun with
  | nil => cases squeezed
  | cons d text ih =>
      rw [squeezeFrom] at squeezed
      split at squeezed
      · rename_i blank
        split at squeezed
        · obtain ⟨gap, rawBehind, gapBlank, rfl, behindEq⟩ := ih squeezed
          exact ⟨d :: gap, rawBehind, List.forall_mem_cons.mpr ⟨blank, gapBlank⟩, rfl, behindEq⟩
        · obtain ⟨rfl, _⟩ := List.cons.inj squeezed
          exact absurd visible (by decide)
      · obtain ⟨rfl, behindEq⟩ := List.cons.inj squeezed
        exact ⟨[], text, nofun, rfl, behindEq⟩

/-- Inside a word nothing is squeezed. -/
theorem exists_of_squeezeFrom_eq_word {word : List Char} (visible : ∀ c ∈ word, isBlank c = false)
    (squeezed : squeezeFrom false text = word ++ behind) :
    ∃ rawBehind, text = word ++ rawBehind ∧ squeezeFrom false rawBehind = behind := by
  induction word generalizing text with
  | nil => exact ⟨text, rfl, squeezed⟩
  | cons c word ih =>
      obtain ⟨cVisible, wordVisible⟩ := List.forall_mem_cons.mp visible
      cases text with
      | nil => cases squeezed
      | cons d text =>
          rw [squeezeFrom] at squeezed
          split at squeezed
          · obtain ⟨rfl, _⟩ := List.cons.inj squeezed
            exact absurd cVisible (by decide)
          · obtain ⟨rfl, later⟩ := List.cons.inj squeezed
            obtain ⟨rawBehind, rfl, behindEq⟩ := ih wordVisible later
            exact ⟨rawBehind, rfl, behindEq⟩

end Squeeze

section Named

variable {name text front gap behind : List Char}

theorem exists_dropEndWhile_append (p : Char → Bool) (text : List Char) :
    ∃ behind, (∀ c ∈ behind, p c = true) ∧ text = dropEndWhile p text ++ behind := by
  refine ⟨(text.reverse.takeWhile p).reverse, ?_, ?_⟩
  · intro c member
    exact List.mem_takeWhile_imp (List.mem_reverse.mp member)
  · rw [dropEndWhile, ← List.reverse_append, List.takeWhile_append_dropWhile,
      List.reverse_reverse]

theorem dropEndWhile_append {p : Char → Bool} {text gap : List Char}
    (inside : ∀ c ∈ gap, p c = true) : dropEndWhile p (text ++ gap) = dropEndWhile p text := by
  have reversed : ∀ c ∈ gap.reverse, p c = true :=
    fun c member => inside c (List.mem_reverse.mp member)
  rw [dropEndWhile, List.reverse_append, List.dropWhile_append_of_pos reversed, dropEndWhile]

theorem dropEndWhile_eq_self {p : Char → Bool} {text : List Char} {c : Char}
    (last : text.getLast? = some c) (outside : p c = false) : dropEndWhile p text = text := by
  obtain ⟨front, rfl⟩ := List.getLast?_eq_some_iff.mp last
  rw [dropEndWhile, List.reverse_append, List.reverse_singleton, List.singleton_append,
    List.dropWhile_cons_of_neg (by simp [outside]), List.reverse_cons, List.reverse_reverse]

theorem exists_trim_append (text : List Char) :
    ∃ front behind, IsGap front ∧ text = front ++ (trim text ++ behind) := by
  obtain ⟨behind, _, trimmed⟩ := exists_dropEndWhile_append isBlank (dropBlanks text)
  refine ⟨text.takeWhile isBlank, behind, fun c member => List.mem_takeWhile_imp member, ?_⟩
  rw [trim, ← trimmed, dropBlanks, List.takeWhile_append_dropWhile]

theorem named_of_squeezeFrom {inRun : Bool} (nonempty : name ≠ [])
    (parts : ∀ c ∈ name, isIdentifierPart c = true)
    (named : Extent.Named name (squeezeFrom inRun text) front gap behind) :
    ∃ rawFront rawGap rawBehind, Extent.Named name text rawFront rawGap rawBehind := by
  have visible : ∀ c ∈ name, isBlank c = false :=
    fun c member => isBlank_eq_false_of_isIdentifierPart (parts c member)
  obtain ⟨rawFront, rest, midRun, rfl, frontEq, restEq⟩ := exists_cut_of_squeezeFrom named.text_eq
  cases name with
  | nil => exact absurd rfl nonempty
  | cons c word =>
      obtain ⟨cVisible, wordVisible⟩ := List.forall_mem_cons.mp visible
      obtain ⟨spaces, afterFirst, spacesBlank, rfl, firstEq⟩ :=
        exists_of_squeezeFrom_eq_cons cVisible restEq
      obtain ⟨afterName, rfl, nameEq⟩ := exists_of_squeezeFrom_eq_word wordVisible firstEq
      obtain ⟨nearGap, afterGap, _, rfl, gapEq, parenEq⟩ := exists_cut_of_squeezeFrom nameEq
      obtain ⟨farGap, rawBehind, farBlank, rfl, _⟩ :=
        exists_of_squeezeFrom_eq_cons (by decide) parenEq
      have nearBlank : IsGap nearGap := isGap_of_squeezeFrom (gapEq ▸ named.blank)
      have frontApart : EndsApart rawFront := EndsApart.of_squeezeFrom (frontEq ▸ named.apart)
      refine ⟨rawFront ++ spaces, nearGap ++ farGap, rawBehind, by simp, ?_,
        frontApart.append (.of_isGap spacesBlank)⟩
      exact List.forall_mem_append.mpr ⟨nearBlank, farBlank⟩

/-- A name that stands before a parenthesis in the collapsed text does so in the
text. -/
theorem named_of_collapse (nonempty : name ≠ []) (parts : ∀ c ∈ name, isIdentifierPart c = true)
    (named : Extent.Named name (collapse text) front gap behind) :
    ∃ rawFront rawGap rawBehind, Extent.Named name text rawFront rawGap rawBehind := by
  obtain ⟨blanks, others, blanksBlank, squeezedEq⟩ := exists_trim_append (squeezeFrom false text)
  have inSqueezed : Extent.Named name (squeezeFrom false text) (blanks ++ front) gap
      (behind ++ others) := by
    refine ⟨?_, named.blank, (EndsApart.of_isGap blanksBlank).append named.apart⟩
    rw [squeezedEq, ← collapse, named.text_eq]
    simp
  exact named_of_squeezeFrom nonempty parts inSqueezed

end Named

end Text
end CallTree
