import CallTree.Declaration.Head
import CallTree.Proofs.Scan.Steps
import Mathlib.Data.List.Forall2
import Mathlib.Data.List.Infix

/-!
# Annotation arguments

While annotation arguments are open, nothing else can be opened: parentheses and
braces are counted wherever they stand, inside literals too.  So arguments end
with their own parenthesis exactly when all their brackets are balanced, those of
their literals included.  Where they are, the rest of the line is scanned as if
the literals had letters for brackets, because the scan of code does not look
back past a parenthesis, except to count quotes.
-/

namespace CallTree
namespace Scan

open Mode
open Declaration (isTypeNamePart)

def isBracket (c : Char) : Bool :=
  c == '(' || c == '{' || c == ')' || c == '}'

def weight (c : Char) : Int :=
  if c = '(' ∨ c = '{' then 1 else if c = ')' ∨ c = '}' then -1 else 0

/-- The parentheses and braces opened in a text less those closed in it. -/
def level : List Char → Int
  | [] => 0
  | c :: rest => weight c + level rest

/-- With `depth` brackets open before the text, none is closed in it that is not
open. -/
def Covered (depth : Int) (text : List Char) : Prop :=
  ∀ front ∈ text.inits, 0 ≤ depth + level front

/-- The text closes all brackets that it opens, and no others. -/
structure Balanced (text : List Char) : Prop where
  covered : Covered 0 text
  closed : level text = 0

instance (depth : Int) (text : List Char) : Decidable (Covered depth text) :=
  inferInstanceAs (Decidable (∀ front ∈ text.inits, 0 ≤ depth + level front))

instance (text : List Char) : Decidable (Balanced text) :=
  decidable_of_iff (Covered 0 text ∧ level text = 0)
    ⟨fun both => ⟨both.1, both.2⟩, fun balanced => ⟨balanced.covered, balanced.closed⟩⟩

theorem weight_eq_zero {c : Char} (plain : isBracket c = false) : weight c = 0 := by
  simp only [isBracket, Bool.or_eq_false_iff, beq_eq_false_iff_ne] at plain
  simp [weight, plain]

theorem covered_nil (depth : Int) : Covered depth [] ↔ 0 ≤ depth := by
  simp [Covered, level]

theorem covered_cons (depth : Int) (c : Char) (text : List Char) :
    Covered depth (c :: text) ↔ 0 ≤ depth ∧ Covered (depth + weight c) text := by
  have atFront : depth + level [] = depth := Int.add_zero depth
  rw [Covered, List.inits_cons, List.forall_mem_cons, List.forall_mem_map, atFront]
  refine and_congr_right fun _ => forall₂_congr fun front _ => ?_
  rw [level, Int.add_assoc]

theorem Covered.depth_nonneg {depth : Int} {text : List Char} (covered : Covered depth text) :
    0 ≤ depth := by
  cases text with
  | nil => exact (covered_nil depth).mp covered
  | cons c text => exact ((covered_cons depth c text).mp covered).1

/-- Mark the characters of a text that stand inside a literal.  A quote opens one
where another quote of its kind follows. -/
def markLiterals (text : List Char) : List (Bool × Char) :=
  match text with
  | [] => []
  | c :: rest =>
      if (c == '"' || c == '\x27') && rest.contains c then
        (false, c) :: ((rest.takeWhile (· != c)).map (true, ·) ++
          (false, c) :: markLiterals (rest.dropWhile (· != c)).tail)
      else (false, c) :: markLiterals rest
termination_by text.length
decreasing_by
  · have dropped := (List.dropWhile_sublist (l := rest) (· != c)).length_le
    simp only [List.length_tail, List.length_cons]
    omega
  · simp

def outsideLiterals (text : List Char) : List Char :=
  ((markLiterals text).filter (!·.1)).map (·.2)

/-- A letter may stand in place of a bracket inside a literal. -/
def MayReplace (mark : Bool × Char) (other : Char) : Prop :=
  if mark.1 && isBracket mark.2 then Text.isAlphanumeric other = true
  else other = mark.2

instance (mark : Bool × Char) (other : Char) : Decidable (MayReplace mark other) :=
  if replaced : mark.1 && isBracket mark.2 then
    decidable_of_iff (Text.isAlphanumeric other = true) (by rw [MayReplace, if_pos replaced])
  else decidable_of_iff (other = mark.2) (by rw [MayReplace, if_neg replaced])

/-- The other text has letters for the brackets inside the literals. -/
def Lettered (text other : List Char) : Prop :=
  List.Forall₂ MayReplace (markLiterals text) other

instance (text other : List Char) : Decidable (Lettered text other) :=
  inferInstanceAs (Decidable (List.Forall₂ _ _ _))

theorem takeWhile_append_cons_tail {c : Char} {text : List Char} (member : c ∈ text) :
    text.takeWhile (· != c) ++ c :: (text.dropWhile (· != c)).tail = text := by
  induction text with
  | nil => cases member
  | cons d text ih =>
      by_cases here : d = c
      · simp [here]
      · have later : c ∈ text := (List.mem_cons.mp member).resolve_left (Ne.symm here)
        rw [List.takeWhile_cons_of_pos (by simpa using here),
          List.dropWhile_cons_of_pos (by simpa using here), List.cons_append, ih later]

theorem map_snd_markLiterals (text : List Char) : (markLiterals text).map (·.2) = text := by
  fun_induction markLiterals text with
  | case1 => rfl
  | case2 c rest quoted ih =>
      have closed : c ∈ rest := by simpa using (Bool.and_eq_true_iff.mp quoted).2
      simpa [ih, Function.comp_def] using takeWhile_append_cons_tail closed
  | case3 c rest plain ih => simp [ih]

section Lettered

variable {marks : List (Bool × Char)} {text other : List Char}

theorem isBracket_eq_false_of_isAlphanumeric {c : Char}
    (letter : Text.isAlphanumeric c = true) : isBracket c = false := by
  simp only [isBracket, Bool.or_eq_false_iff, beq_eq_false_iff_ne]
  refine ⟨⟨⟨?_, ?_⟩, ?_⟩, ?_⟩ <;>
  · rintro rfl
    exact absurd letter (by decide)

/-- What stands inside a literal is no bracket any more. -/
theorem weight_of_mayReplace {c d : Char} (replaces : MayReplace (true, c) d) : weight d = 0 := by
  rw [MayReplace] at replaces
  split at replaces
  · exact weight_eq_zero (isBracket_eq_false_of_isAlphanumeric replaces)
  · rename_i plain
    rw [replaces]
    exact weight_eq_zero (by simpa using plain)

theorem covered_of_mayReplace (replaces : List.Forall₂ MayReplace marks other) {depth : Int}
    (covered : Covered depth ((marks.filter (!·.1)).map (·.2))) :
    Covered depth other ∧ level other = level ((marks.filter (!·.1)).map (·.2)) := by
  induction replaces generalizing depth with
  | nil => exact ⟨covered, rfl⟩
  | @cons mark d marks other here _ ih =>
      obtain ⟨inside, c⟩ := mark
      cases inside with
      | true =>
          obtain ⟨later, levels⟩ := ih covered
          rw [covered_cons, level, weight_of_mayReplace here, Int.add_zero, Int.zero_add]
          exact ⟨⟨later.depth_nonneg, later⟩, levels⟩
      | false =>
          obtain rfl : d = c := here
          have outside := (covered_cons depth d _).mp covered
          obtain ⟨later, levels⟩ := ih outside.2
          refine ⟨(covered_cons depth d other).mpr ⟨outside.1, later⟩, ?_⟩
          rw [level, levels]
          rfl

theorem Lettered.balanced (lettered : Lettered text other)
    (balanced : Balanced (outsideLiterals text)) : Balanced other := by
  obtain ⟨covered, levels⟩ := covered_of_mayReplace lettered balanced.covered
  exact ⟨covered, levels.trans balanced.closed⟩

theorem Lettered.length_eq (lettered : Lettered text other) : other.length = text.length := by
  rw [← List.Forall₂.length_eq lettered, ← congrArg List.length (map_snd_markLiterals text),
    List.length_map]

theorem count_of_mayReplace (replaces : List.Forall₂ MayReplace marks other) {c : Char}
    (noLetter : Text.isAlphanumeric c = false) (noBracket : isBracket c = false) :
    other.count c = (marks.map (·.2)).count c := by
  induction replaces with
  | nil => rfl
  | @cons mark d marks other here _ ih =>
      have same : d = c ↔ mark.2 = c := by
        rw [MayReplace] at here
        split at here
        · rename_i bracket
          constructor
          · rintro rfl
            rw [noLetter] at here
            cases here
          · rintro rfl
            rw [noBracket, Bool.and_false] at bracket
            cases bracket
        · rw [here]
      simp only [List.map_cons, List.count_cons, ih, beq_iff_eq, same]

/-- Quotes and backslashes stay as they are. -/
theorem Lettered.count_eq (lettered : Lettered text other) {c : Char}
    (noLetter : Text.isAlphanumeric c = false) (noBracket : isBracket c = false) :
    other.count c = text.count c := by
  rw [count_of_mayReplace lettered noLetter noBracket, map_snd_markLiterals]

end Lettered

/-- The texts, held nearest first, are the same back to a parenthesis, and have
the same number of quotes before it. -/
inductive SeenAlike : List Char → List Char → Prop where
  | parenthesis {far otherFar : List Char} :
      (∀ quote, quote = '"' ∨ quote = '\x27' →
        countUnescaped quote otherFar = countUnescaped quote far) →
      SeenAlike (')' :: far) (')' :: otherFar)
  | cons (c : Char) {before other : List Char} : SeenAlike before other →
      SeenAlike (c :: before) (c :: other)

namespace SeenAlike

variable {before other : List Char}

theorem append (near : List Char) (alike : SeenAlike before other) :
    SeenAlike (near ++ before) (near ++ other) := by
  induction near with
  | nil => exact alike
  | cons c near ih => exact .cons c ih

theorem head?_eq (alike : SeenAlike before other) : other.head? = before.head? := by
  cases alike <;> rfl

theorem isBlankText_eq (alike : SeenAlike before other) :
    Text.isBlankText other = Text.isBlankText before := by
  induction alike with
  | parenthesis _ => rfl
  | cons c _ ih => simpa [Text.isBlankText] using congrArg (Text.isBlank c && ·) ih

theorem typeArgumentsMayFollow_eq (alike : SeenAlike before other) :
    typeArgumentsMayFollow other = typeArgumentsMayFollow before := by
  cases alike with
  | parenthesis _ => rfl
  | cons c alike =>
      by_cases isSpace : c = ' '
      · subst isSpace
        cases alike <;> rfl
      · simp [typeArgumentsMayFollow]

theorem countUnescaped_eq (alike : SeenAlike before other) {quote : Char}
    (isQuote : quote = '"' ∨ quote = '\x27') :
    countUnescaped quote other = countUnescaped quote before := by
  induction alike with
  | parenthesis quotes =>
      rw [countUnescaped, countUnescaped, quotes quote isQuote]
      rcases isQuote with rfl | rfl <;> rfl
  | cons c alike ih => rw [countUnescaped, countUnescaped, ih, alike.head?_eq]

theorem dropBlanks (alike : SeenAlike before other) :
    SeenAlike (Text.dropBlanks before) (Text.dropBlanks other) := by
  induction alike with
  | parenthesis quotes => exact .parenthesis quotes
  | cons c alike ih =>
      rw [Text.dropBlanks, Text.dropBlanks, List.dropWhile_cons, List.dropWhile_cons]
      split
      · exact ih
      · exact .cons c alike

/-- A word that is not the same reaches back past the parenthesis. -/
theorem takeWhile_cases {p : Char → Bool} (passes : p ')' = true)
    (alike : SeenAlike before other) :
    other.takeWhile p = before.takeWhile p ∨
      ∃ near far otherFar, before.takeWhile p = near ++ ')' :: far ∧
        other.takeWhile p = near ++ ')' :: otherFar := by
  induction alike with
  | @parenthesis far otherFar _ =>
      refine .inr ⟨[], far.takeWhile p, otherFar.takeWhile p, ?_, ?_⟩
      · exact List.takeWhile_cons_of_pos passes
      · exact List.takeWhile_cons_of_pos passes
  | @cons c before other _ ih =>
      rw [List.takeWhile_cons, List.takeWhile_cons]
      split
      · rcases ih with same | ⟨near, far, otherFar, beforeEq, otherEq⟩
        · exact .inl (congrArg (c :: ·) same)
        · exact .inr ⟨c :: near, far, otherFar, by rw [beforeEq]; rfl, by rw [otherEq]; rfl⟩
      · exact .inl rfl

end SeenAlike

/-- A word without parentheses ends a text where it ends what stands behind the
last parenthesis. -/
theorem isSuffixOf_behind_parenthesis {word : List Char} (plain : ')' ∉ word)
    (front behind : List Char) :
    word.isSuffixOf (front ++ ')' :: behind) = word.isSuffixOf behind := by
  rw [Bool.eq_iff_iff, List.isSuffixOf_iff_suffix, List.isSuffixOf_iff_suffix]
  constructor
  · intro suffix
    have behindSuffix : behind <:+ front ++ ')' :: behind := ⟨front ++ [')'], by simp⟩
    rcases Nat.lt_or_ge behind.length word.length with longer | within
    · have parenSuffix : ')' :: behind <:+ front ++ ')' :: behind := List.suffix_append _ _
      have inWord := List.suffix_of_suffix_length_le parenSuffix suffix longer
      exact absurd (inWord.subset List.mem_cons_self) plain
    · exact List.suffix_of_suffix_length_le suffix behindSuffix within
  · intro suffix
    exact suffix.trans ⟨front ++ [')'], by simp⟩

theorem introducesPattern_behind_parenthesis (front behind : List Char) :
    introducesPattern (front ++ ')' :: behind) =
      ("Pattern.compile".toList.isSuffixOf behind ||
        patternMethods.any fun name => ('.' :: name.toList).isSuffixOf behind) := by
  have differs {word : List Char} (plain : ')' ∉ word) :
      (front ++ ')' :: behind == word) = false := by
    rw [beq_eq_false_iff_ne]
    rintro rfl
    exact plain (by simp)
  have plain : ∀ name ∈ patternMethods, ')' ∉ name.toList ∧ ')' ∉ '.' :: name.toList := by
    decide
  have methods : patternMethods.any (fun name => front ++ ')' :: behind == name.toList) = false :=
    List.any_eq_false.mpr fun name member => by simp [differs (plain name member).1]
  have dotted : patternMethods.any
        (fun name => ('.' :: name.toList).isSuffixOf (front ++ ')' :: behind)) =
      patternMethods.any fun name => ('.' :: name.toList).isSuffixOf behind := by
    rw [Bool.eq_iff_iff, List.any_eq_true, List.any_eq_true]
    refine exists_congr fun name => and_congr_right fun member => ?_
    rw [isSuffixOf_behind_parenthesis (plain name member).2]
  rw [introducesPattern, methods, dotted, differs (by decide), differs (by decide),
    isSuffixOf_behind_parenthesis (by decide)]
  rfl

namespace SeenAlike

variable {before other : List Char}

theorem introducesPattern_eq (alike : SeenAlike before other) :
    introducesPattern (other.takeWhile (!Text.isBlank ·)).reverse =
      introducesPattern (before.takeWhile (!Text.isBlank ·)).reverse := by
  rcases alike.takeWhile_cases (p := (!Text.isBlank ·)) (by decide) with
    same | ⟨near, far, otherFar, beforeEq, otherEq⟩
  · rw [same]
  · have reversed (far : List Char) :
        (near ++ ')' :: far).reverse = far.reverse ++ ')' :: near.reverse := by
      simp
    rw [beforeEq, otherEq, reversed, reversed, introducesPattern_behind_parenthesis,
      introducesPattern_behind_parenthesis]

theorem opensPattern_eq (alike : SeenAlike before other) (rest : List Char) :
    opensPattern other rest = opensPattern before rest := by
  have visible := alike.dropBlanks
  have heads := visible.head?_eq
  rw [opensPattern, opensPattern, visible.countUnescaped_eq (.inl rfl),
    visible.countUnescaped_eq (.inr rfl), visible.introducesPattern_eq]
  cases beforeEq : Text.dropBlanks before with
  | nil =>
      rw [beforeEq] at visible
      cases visible
  | cons previous behind =>
      rw [beforeEq] at heads
      obtain ⟨otherBehind, otherEq⟩ := List.head?_eq_some_iff.mp heads
      rw [otherEq]

/-- A step looks back to the nearest parenthesis at most, and at the number of
quotes. -/
theorem step_eq (alike : SeenAlike before other) (detect : Bool) (c : Char) (rest : List Char)
    (context : Context) :
    step { detectPatterns := detect } other c rest context =
      step { detectPatterns := detect } before c rest context := by
  have patterns := alike.opensPattern_eq
  have generics (rest : List Char) : opensGeneric other rest = opensGeneric before rest := by
    rw [opensGeneric, opensGeneric, alike.typeArgumentsMayFollow_eq]
  have closes (rest : List Char) : closesPattern other rest = closesPattern before rest := rfl
  simp only [step, codeStep, patterns, generics, closes, alike.isBlankText_eq]

theorem scanFrom_eq (alike : SeenAlike before other) (detect : Bool) (rest : List Char)
    (context : Context) :
    scanFrom { detectPatterns := detect } other rest context =
      scanFrom { detectPatterns := detect } before rest context := by
  fun_induction scanFrom { detectPatterns := detect } before rest context
    generalizing other with
  | case1 => rw [scanFrom]
  | case2 before context c rest =>
      rename_i ih
      rw [scanFrom]
      simp only [alike.step_eq]
      rw [ih (alike.append _)]

end SeenAlike

/-- The context of a scan behind the next `count` characters, if a step ends
there. -/
def contextFrom (rules : Rules) (before rest : List Char) (context : Context) :
    Nat → Option Context
  | 0 => some context
  | count + 1 =>
      match rest with
      | [] => none
      | c :: rest =>
          let s := step rules before c rest context
          if s.further ≤ count then
            contextFrom rules ((c :: rest.take s.further).reverse ++ before)
              (rest.drop s.further) s.context (count - s.further)
          else none
termination_by count => count
decreasing_by exact Nat.lt_succ_of_le (Nat.sub_le count _)

def Outcome.hidden (count : Nat) (outcome : Outcome) : Outcome :=
  { outcome with mask := List.replicate count ' ' ++ outcome.mask }

theorem Outcome.hidden_hidden (first second : Nat) (outcome : Outcome) :
    (outcome.hidden second).hidden first = outcome.hidden (first + second) := by
  simp only [hidden, List.replicate_add, List.append_assoc]

section Arguments

variable {rules : Rules} {before rest : List Char} {c : Char} {context next : Context}
variable {further inner : Nat}

theorem contextFrom_step {s : Step} (stepEq : step rules before c rest context = s)
    (count : Nat) :
    contextFrom rules before (c :: rest) context (s.further + count + 1) =
      contextFrom rules ((c :: rest.take s.further).reverse ++ before) (rest.drop s.further)
        s.context count := by
  rw [contextFrom]
  simp only [stepEq]
  rw [if_pos (by omega), Nat.add_sub_cancel_left]

theorem scanFrom_hidden
    (stepEq : step rules before c rest context = { further, context := next }) :
    scanFrom rules before (c :: rest) context =
      (scanFrom rules ((c :: rest.take further).reverse ++ before) (rest.drop further) next).hidden
        (c :: rest.take further).length := by
  rw [scanFrom]
  simp only [stepEq]
  simp [Outcome.prepend, Outcome.hidden]

theorem behindArgument_of_level {deeper : Nat} (levelEq : (deeper : Int) = inner + weight c) :
    behindArgument c inner = arguments deeper := by
  rw [weight] at levelEq
  unfold behindArgument
  split
  · rename_i opens
    rw [if_pos opens] at levelEq
    congr 1
    omega
  · rename_i notOpening
    rw [if_neg notOpening] at levelEq
    split
    · rename_i closes
      rw [if_pos closes] at levelEq
      cases inner with
      | zero => omega
      | succ inner =>
          dsimp only
          congr 1
          omega
    · rename_i notClosing
      rw [if_neg notClosing] at levelEq
      congr 1
      omega

theorem behindArgument_of_neg (negative : (inner : Int) + weight c < 0) :
    behindArgument c inner = code := by
  rw [weight] at negative
  unfold behindArgument
  split
  · rename_i opens
    rw [if_pos opens] at negative
    omega
  · rename_i notOpening
    rw [if_neg notOpening] at negative
    split
    · rename_i closes
      rw [if_pos closes] at negative
      obtain rfl : inner = 0 := by omega
      rfl
    · rename_i notClosing
      rw [if_neg notClosing] at negative
      omega

theorem step_argument (unescaped : c ≠ '\\') (rules : Rules) (before rest : List Char)
    (inner : Nat) :
    step rules before c rest ((arguments inner).context false) =
      { context := (behindArgument c inner).context false } :=
  step_plain unescaped rules before rest (arguments inner)

theorem contextFrom_argument (unescaped : c ≠ '\\') (count : Nat) :
    contextFrom rules before (c :: rest) ((arguments inner).context false) (count + 1) =
      contextFrom rules (c :: before) rest ((behindArgument c inner).context false) count := by
  have read := contextFrom_step (step_argument unescaped rules before rest inner) count
  rwa [Nat.zero_add] at read

/-- The scan is inside the arguments up to the parenthesis behind a text, and no
longer behind it, exactly when the text closes all brackets but the first. -/
theorem arguments_stay_iff (rules : Rules) (before rest : List Char) (inner : Nat)
    {args : List Char} (unescaped : '\\' ∉ args) :
    ((∀ count ≤ args.length,
        (contextFrom rules before (args ++ ')' :: rest) ((arguments inner).context false)
          count).map Context.inArguments = some true) ∧
      (contextFrom rules before (args ++ ')' :: rest) ((arguments inner).context false)
        (args.length + 1)).map Context.inArguments = some false) ↔
      Covered inner args ∧ (inner : Int) + level args = 0 := by
  induction args generalizing before inner with
  | nil =>
      have start (count : Nat) (atStart : count ≤ 0) :
          (contextFrom rules before (')' :: rest) ((arguments inner).context false) count).map
            Context.inArguments = some true := by
        obtain rfl : count = 0 := by omega
        rw [contextFrom]
        rfl
      have nothing : level [] = 0 := rfl
      rw [List.nil_append, List.length_nil, contextFrom_argument (by decide), contextFrom,
        covered_nil, nothing]
      constructor
      · rintro ⟨_, left⟩
        cases inner with
        | zero => exact ⟨Int.le_refl 0, rfl⟩
        | succ inner => cases left
      · rintro ⟨_, closed⟩
        obtain rfl : inner = 0 := by omega
        exact ⟨start, rfl⟩
  | cons c args ih =>
      obtain ⟨plain, unescaped⟩ : c ≠ '\\' ∧ '\\' ∉ args := by
        rw [List.mem_cons, not_or] at unescaped
        exact ⟨Ne.symm unescaped.1, unescaped.2⟩
      have start : (contextFrom rules before (c :: (args ++ ')' :: rest))
          ((arguments inner).context false) 0).map Context.inArguments = some true := by
        rw [contextFrom]
        rfl
      rw [covered_cons, level, List.cons_append, List.length_cons]
      by_cases negative : (inner : Int) + weight c < 0
      · constructor
        · rintro ⟨inside, _⟩
          have first := inside 1 (by omega)
          rw [contextFrom_argument plain, behindArgument_of_neg negative, contextFrom] at first
          cases first
        · rintro ⟨⟨_, covered⟩, _⟩
          have depth := covered.depth_nonneg
          omega
      · obtain ⟨deeper, levelEq⟩ : ∃ deeper : Nat, (deeper : Int) = inner + weight c :=
          ⟨((inner : Int) + weight c).toNat, by omega⟩
        have later := ih (c :: before) deeper unescaped
        rw [levelEq, Int.add_assoc] at later
        rw [contextFrom_argument plain, behindArgument_of_level levelEq, and_assoc,
          and_iff_right (Int.natCast_nonneg inner), ← later]
        refine and_congr_left fun _ => ⟨fun inside count bound => ?_, fun inside count bound => ?_⟩
        · have further := inside (count + 1) (by omega)
          rwa [contextFrom_argument plain, behindArgument_of_level levelEq] at further
        · cases count with
          | zero => exact start
          | succ count =>
              rw [contextFrom_argument plain, behindArgument_of_level levelEq]
              exact inside count (by omega)

/-- Arguments are hidden with the parenthesis that ends them. -/
theorem scanFrom_arguments (rules : Rules) (before rest : List Char) {args : List Char}
    (unescaped : '\\' ∉ args) (covered : Covered inner args)
    (closed : (inner : Int) + level args = 0) :
    scanFrom rules before (args ++ ')' :: rest) ((arguments inner).context false) =
      (scanFrom rules (')' :: (args.reverse ++ before)) rest (code.context false)).hidden
        (args.length + 1) := by
  induction args generalizing before inner with
  | nil =>
      have nothing : level [] = 0 := rfl
      obtain rfl : inner = 0 := by omega
      exact scanFrom_hidden (step_argument (by decide) rules before rest 0)
  | cons c args ih =>
      obtain ⟨plain, unescaped⟩ : c ≠ '\\' ∧ '\\' ∉ args := by
        rw [List.mem_cons, not_or] at unescaped
        exact ⟨Ne.symm unescaped.1, unescaped.2⟩
      have later := ((covered_cons _ c args).mp covered).2
      obtain ⟨deeper, levelEq⟩ : ∃ deeper : Nat, (deeper : Int) = inner + weight c :=
        ⟨((inner : Int) + weight c).toNat, by have := later.depth_nonneg; omega⟩
      rw [level] at closed
      have first := scanFrom_hidden (step_argument plain rules before (args ++ ')' :: rest) inner)
      rw [behindArgument_of_level levelEq] at first
      have further := ih (c :: before) unescaped (levelEq ▸ later) (by omega)
      calc scanFrom rules before (c :: (args ++ ')' :: rest)) ((arguments inner).context false)
          = (scanFrom rules (c :: before) (args ++ ')' :: rest)
              ((arguments deeper).context false)).hidden 1 := first
        _ = (scanFrom rules (')' :: ((c :: args).reverse ++ before)) rest
              (code.context false)).hidden ((c :: args).length + 1) := by
            rw [further, Outcome.hidden_hidden, List.reverse_cons, List.append_assoc,
              List.length_cons, Nat.add_comm 1]
            rfl

end Arguments

/-- A line that starts with an annotation with arguments. -/
def annotated (name args rest : List Char) : Line :=
  '@' :: (name ++ '(' :: (args ++ ')' :: rest))

/-- The scan of an annotated line is inside the arguments up to the parenthesis
behind `args`, and no longer behind it. -/
def EndsArguments (rules : Rules) (name args rest : List Char) : Prop :=
  (∀ count ≤ args.length,
    (contextFrom rules [] (annotated name args rest) .fresh (name.length + 2 + count)).map
      Context.inArguments = some true) ∧
  (contextFrom rules [] (annotated name args rest) .fresh
    (name.length + 2 + args.length + 1)).map Context.inArguments = some false

section Annotated

variable {rules : Rules} {name args rest : List Char}

theorem step_at (rules : Rules) (named : ∀ c ∈ name, isTypeNamePart c = true)
    (inside : List Char) :
    step rules [] '@' (name ++ '(' :: inside) (code.context false) =
      { further := name.length, context := beforeArguments.context false } := by
  have spaces : (name ++ '(' :: inside).takeWhile (· == ' ') = [] ∧
      (name ++ '(' :: inside).dropWhile (· == ' ') = name ++ '(' :: inside := by
    cases name with
    | nil => exact ⟨rfl, rfl⟩
    | cons c name =>
        have notSpace : ¬ (c == ' ') = true := by
          intro isSpace
          rw [beq_iff_eq] at isSpace
          subst isSpace
          exact absurd (named ' ' List.mem_cons_self) (by decide)
        exact ⟨List.takeWhile_cons_of_neg notSpace, List.dropWhile_cons_of_neg notSpace⟩
  have parts : (name ++ '(' :: inside).takeWhile isTypeNamePart = name := by
    rw [List.takeWhile_append_of_pos named, List.takeWhile_cons_of_neg (by decide),
      List.append_nil]
  have nameEq : annotationName (name ++ '(' :: inside) = name := by
    rw [annotationName, spaces.1, spaces.2]
    exact parts
  rw [step_plain (by decide)]
  change annotationStep (name ++ '(' :: inside) (code.context false) = _
  simp [annotationStep, nameEq, Mode.context]

theorem step_parenthesis (rules : Rules) (before rest : List Char) :
    step rules before '(' rest (beforeArguments.context false) =
      { context := (arguments 0).context false } :=
  step_plain (by decide) rules before rest beforeArguments

theorem contextFrom_annotated (named : ∀ c ∈ name, isTypeNamePart c = true) (count : Nat) :
    contextFrom rules [] (annotated name args rest) .fresh (name.length + 2 + count) =
      contextFrom rules ('(' :: (name.reverse ++ ['@'])) (args ++ ')' :: rest)
        ((arguments 0).context false) count := by
  have behindName := contextFrom_step
    (step_at rules named (args ++ ')' :: rest)) (count + 1)
  have behindParenthesis := contextFrom_step
    (step_parenthesis rules (name.reverse ++ ['@']) (args ++ ')' :: rest)) count
  simp only [List.take_left, List.drop_left, List.reverse_cons, List.append_nil] at behindName
  rw [Nat.zero_add] at behindParenthesis
  rw [show name.length + 2 + count = name.length + (count + 1) + 1 by omega]
  exact behindName.trans behindParenthesis

theorem scanLine_annotated (named : ∀ c ∈ name, isTypeNamePart c = true) (unescaped : '\\' ∉ args)
    (balanced : Balanced args) :
    scanLine rules (annotated name args rest) .fresh =
      (scanFrom rules (')' :: (args.reverse ++ '(' :: (name.reverse ++ ['@']))) rest
        (code.context false)).hidden (name.length + args.length + 3) := by
  have behindName := scanFrom_hidden (step_at rules named (args ++ ')' :: rest))
  have behindParenthesis := scanFrom_hidden
    (step_parenthesis rules (name.reverse ++ ['@']) (args ++ ')' :: rest))
  have closed : ((0 : Nat) : Int) + level args = 0 := by
    rw [balanced.closed]
    rfl
  have behindArguments := scanFrom_arguments rules ('(' :: (name.reverse ++ ['@'])) rest unescaped
    balanced.covered closed
  simp only [List.take_left, List.drop_left, List.reverse_cons, List.append_nil] at behindName
  calc scanLine rules (annotated name args rest) .fresh
      = (scanFrom rules (name.reverse ++ ['@']) ('(' :: (args ++ ')' :: rest))
          (beforeArguments.context false)).hidden ('@' :: name).length := behindName
    _ = ((scanFrom rules ('(' :: (name.reverse ++ ['@'])) (args ++ ')' :: rest)
          ((arguments 0).context false)).hidden 1).hidden ('@' :: name).length :=
        congrArg (Outcome.hidden _) behindParenthesis
    _ = (scanFrom rules (')' :: (args.reverse ++ '(' :: (name.reverse ++ ['@']))) rest
          (code.context false)).hidden (name.length + args.length + 3) := by
        rw [behindArguments, Outcome.hidden_hidden, Outcome.hidden_hidden, List.length_cons]
        congr 1
        omega

theorem endsArguments_iff (named : ∀ c ∈ name, isTypeNamePart c = true)
    (unescaped : '\\' ∉ args) : EndsArguments rules name args rest ↔ Balanced args := by
  have stays := arguments_stay_iff rules ('(' :: (name.reverse ++ ['@'])) rest 0 unescaped
  rw [EndsArguments, Nat.add_assoc]
  simp only [contextFrom_annotated named]
  rw [stays]
  constructor
  · rintro ⟨covered, closed⟩
    exact ⟨covered, by omega⟩
  · rintro ⟨covered, closed⟩
    exact ⟨covered, by omega⟩

theorem countUnescaped_eq_count {text : List Char} (unescaped : '\\' ∉ text) (quote : Char) :
    countUnescaped quote text = text.count quote := by
  induction text with
  | nil => rfl
  | cons c text ih =>
      rw [List.mem_cons, not_or] at unescaped
      have plain : (text.head? != some '\\') = true := by
        rw [bne_iff_ne]
        intro escaped
        exact unescaped.2 (List.mem_of_head? escaped)
      rw [countUnescaped, ih unescaped.2, plain, Bool.and_true, List.count_cons, Nat.add_comm]

theorem Lettered.unescaped {other : List Char} (lettered : Lettered args other)
    (unescaped : '\\' ∉ args) : '\\' ∉ other := by
  rw [← List.count_eq_zero, lettered.count_eq (by decide) (by decide), List.count_eq_zero]
  exact unescaped

/-- The scan of code behind an annotation cannot tell the arguments from those
with letters in their literals. -/
theorem Lettered.seenAlike {other : List Char} (lettered : Lettered args other)
    (named : ∀ c ∈ name, isTypeNamePart c = true) (unescaped : '\\' ∉ args) :
    SeenAlike (')' :: (args.reverse ++ '(' :: (name.reverse ++ ['@'])))
      (')' :: (other.reverse ++ '(' :: (name.reverse ++ ['@']))) := by
  have nameUnescaped : '\\' ∉ name := fun member => absurd (named _ member) (by decide)
  have otherUnescaped := lettered.unescaped unescaped
  refine .parenthesis fun quote isQuote => ?_
  have sameQuotes : other.count quote = args.count quote := by
    rcases isQuote with rfl | rfl
    · exact lettered.count_eq (by decide) (by decide)
    · exact lettered.count_eq (by decide) (by decide)
  rw [countUnescaped_eq_count (by simp [otherUnescaped, nameUnescaped]),
    countUnescaped_eq_count (by simp [unescaped, nameUnescaped]), List.count_append,
    List.count_append, List.count_reverse, List.count_reverse, sameQuotes]

end Annotated

/-- The scan leaves the arguments of an annotation with their own parenthesis
exactly when all brackets between the two are balanced, those inside literals
too.  Then the line is scanned as if these were letters. -/
theorem endsArguments_iff_balanced (detect : Bool) {name args : List Char} (rest : List Char)
    (named : ∀ c ∈ name, isTypeNamePart c = true) (unescaped : '\\' ∉ args)
    (balanced : Balanced (outsideLiterals args)) :
    (EndsArguments { detectPatterns := detect } name args rest ↔ Balanced args) ∧
    (Balanced args → ∀ other, Lettered args other →
      scanLine { detectPatterns := detect } (annotated name args rest) .fresh =
        scanLine { detectPatterns := detect } (annotated name other rest) .fresh) := by
  refine ⟨endsArguments_iff named unescaped, ?_⟩
  intro allBalanced other lettered
  have otherUnescaped := lettered.unescaped unescaped
  rw [scanLine_annotated named unescaped allBalanced,
    scanLine_annotated named otherUnescaped (lettered.balanced balanced),
    (lettered.seenAlike named unescaped).scanFrom_eq, lettered.length_eq]

/-- Arguments whose literals have brackets that are balanced among themselves. -/
def bracketArguments : List Char :=
  "\"(a)\", open = '\x7b', close = \"\x7d\"".toList

def letterArguments : List Char :=
  "\"xay\", open = 'u', close = \"v\"".toList

theorem bracketArguments_end :
    Balanced (outsideLiterals bracketArguments) ∧
      EndsArguments { detectPatterns := true } "Pair".toList bracketArguments
        " void f() \x7b".toList ∧
      scanLine { detectPatterns := true }
          (annotated "Pair".toList bracketArguments " void f() \x7b".toList) .fresh =
        scanLine { detectPatterns := true }
          (annotated "Pair".toList letterArguments " void f() \x7b".toList) .fresh := by
  have outside : Balanced (outsideLiterals bracketArguments) := by decide +kernel
  have whole : Balanced bracketArguments := by decide +kernel
  have lettered : Lettered bracketArguments letterArguments := by decide +kernel
  have named : ∀ c ∈ "Pair".toList, isTypeNamePart c = true := List.all_eq_true.mp (by decide)
  obtain ⟨endsIff, alike⟩ := endsArguments_iff_balanced true " void f() \x7b".toList named
    (by decide) outside
  exact ⟨outside, endsIff.mpr whole, alike whole letterArguments lettered⟩

/-- A parenthesis in a literal ends the arguments, and the quote behind it then
hides the rest of the line. -/
theorem quoted_parenthesis_ends_arguments :
    (∀ c ∈ "A".toList, isTypeNamePart c = true) ∧ '\\' ∉ "\")\"".toList ∧
      Balanced (outsideLiterals "\")\"".toList) ∧ Lettered "\")\"".toList "\"p\"".toList ∧
      ¬ EndsArguments {} "A".toList "\")\"".toList " void f() \x7b".toList ∧
      (scanLine {} (annotated "A".toList "\")\"".toList " void f() \x7b".toList) .fresh).opens = 0 ∧
      (scanLine {} (annotated "A".toList "\"p\"".toList " void f() \x7b".toList) .fresh).opens =
        1 := by
  have named : ∀ c ∈ "A".toList, isTypeNamePart c = true := List.all_eq_true.mp (by decide)
  have unescaped : '\\' ∉ "\")\"".toList := by decide
  refine ⟨named, unescaped, by decide +kernel, by decide +kernel, ?_, by decide +kernel,
    by decide +kernel⟩
  rw [endsArguments_iff named unescaped]
  decide +kernel

end Scan
end CallTree
