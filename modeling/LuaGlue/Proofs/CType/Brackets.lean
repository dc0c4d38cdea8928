import LuaGlue.Proofs.CType.Qualified

/-!
# Parentheses and commas of a parameter list

Two readers go over a parameter list. One looks for the parenthesis that ends it and counts parentheses
only (`closeParen`); the other looks for the commas between parameters and counts all brackets together,
also below zero (`splitParams`). They need not agree: in `a(>, b<)` the comma stands inside parentheses and
yet between two parts. What carries a list over to a new text is therefore said of each count by itself:
the parentheses stay what they were (`openAfter`), and every part begins with no bracket open and holds no
comma that would divide it (`PartsApart`).
-/

set_option autoImplicit false

namespace LuaGlue

open Text

/-! ## Cuts and white space at the ends -/

namespace Text

/-- The mark does not stand in front of its first occurrence. -/
theorem notMem_of_cutAtChar? {mark : Char} : ∀ {cs before after : List Char},
    cutAtChar? mark cs = some (before, after) → mark ∉ before := by
  intro cs
  induction cs with
  | nil => exact fun h => by cases h
  | cons c rest ih =>
    intro before after h
    rw [cutAtChar?] at h
    split at h
    · obtain ⟨rfl, -⟩ := Prod.mk.inj (Option.some.inj h)
      exact List.not_mem_nil
    · rename_i hmark
      obtain ⟨⟨before', after'⟩, hcut, heq⟩ := Option.map_eq_some_iff.mp h
      obtain ⟨rfl, rfl⟩ := Prod.mk.inj heq
      rw [List.mem_cons, not_or]
      exact ⟨Ne.symm hmark, ih hcut⟩

theorem cutAtChar?_first {mark : Char} {before : List Char} (h : mark ∉ before) (after : List Char) :
    cutAtChar? mark (before ++ mark :: after) = some (before, after) := by
  rw [cutAtChar?_append h]
  simp [cutAtChar?]

/-- What `trim` takes away stands at the ends and is white space. -/
theorem trim_split (cs : List Char) : ∃ front back, (∀ c ∈ front, isBlank c = true) ∧
    (∀ c ∈ back, isBlank c = true) ∧ cs = front ++ (trim cs ++ back) := by
  obtain ⟨back, hback, heq⟩ := trimEnd_split (cs.dropWhile isBlank)
  refine ⟨cs.takeWhile isBlank, back, fun c hc => List.mem_takeWhile_imp hc, hback, ?_⟩
  rw [trim, ← heq, List.takeWhile_append_dropWhile]

theorem trim_blanks {front back cs : List Char} (hfront : ∀ c ∈ front, isBlank c = true)
    (hback : ∀ c ∈ back, isBlank c = true) : trim (front ++ (cs ++ back)) = trim cs := by
  rw [trim, dropWhile_append_blanks hfront, List.dropWhile_append]
  split
  · rename_i hempty
    have hcs : ∀ c ∈ cs, isBlank c = true := by simpa using hempty
    rw [trim, List.dropWhile_eq_nil_iff.mpr hback, List.dropWhile_eq_nil_iff.mpr hcs]
  · rw [trimEnd_append_blanks hback, trim]

theorem trim_trim (cs : List Char) : trim (trim cs) = trim cs := by
  obtain ⟨front, back, hfront, hback, heq⟩ := trim_split cs
  conv => rhs; rw [heq]
  exact (trim_blanks hfront hback).symm

end Text

/-! ## Parentheses -/

def isParen (c : Char) : Bool := c == '(' || c == ')'

/-- How many parentheses are open behind a character; one too many cannot be closed. -/
def parenStep (depth : Nat) (c : Char) : Option Nat :=
  if c = '(' then some (depth + 1)
  else if c = ')' then
    match depth with
    | 0 => none
    | d + 1 => some d
  else some depth

/-- How many parentheses are open behind a text, `depth` of them being open in front of it. -/
def openAfter (depth : Nat) (cs : List Char) : Option Nat := cs.foldlM parenStep depth

theorem openAfter_cons (depth : Nat) (c : Char) (cs : List Char) :
    openAfter depth (c :: cs) = (parenStep depth c).bind fun d => openAfter d cs := rfl

/-- **A parenthesis is closed where as many are open as were in front.** -/
theorem closeParen_iff {rest : List Char} : ∀ {x : List Char} {depth : Nat},
    closeParen depth (x ++ ')' :: rest) = some (x, rest) ↔ openAfter depth x = some 0 := by
  intro x
  induction x with
  | nil =>
    intro depth
    cases depth with
    | zero => simp [closeParen, openAfter]
    | succ d => simp [closeParen, openAfter]
  | cons c x ih =>
    intro depth
    have hkept (d : Nat) : (closeParen d (x ++ ')' :: rest)).map (fun p => (c :: p.1, p.2)) =
        some (c :: x, rest) ↔ openAfter d x = some 0 := by
      rw [← ih]
      simp [Option.map_eq_some_iff, Prod.ext_iff]
    rw [openAfter_cons, List.cons_append]
    unfold closeParen parenStep
    by_cases hclose : c = ')'
    · subst hclose
      cases depth with
      | zero => simp
      | succ d => simpa using hkept d
    · by_cases hopen : c = '('
      · subst hopen
        simpa using hkept (depth + 1)
      · simpa [hclose, hopen] using hkept depth

/-- Only parentheses count. -/
theorem openAfter_filter (cs : List Char) :
    ∀ depth, openAfter depth (cs.filter isParen) = openAfter depth cs := by
  induction cs with
  | nil => exact fun _ => rfl
  | cons c cs ih =>
    intro depth
    by_cases hc : isParen c = true
    · rw [List.filter_cons_of_pos hc, openAfter_cons, openAfter_cons]
      simp only [ih]
    · have hplain : c ≠ '(' ∧ c ≠ ')' := by simpa [isParen] using hc
      rw [List.filter_cons_of_neg hc, ih, openAfter_cons]
      simp [parenStep, hplain.1, hplain.2]

theorem openAfter_congr {x y : List Char} (h : x.filter isParen = y.filter isParen) (depth : Nat) :
    openAfter depth x = openAfter depth y := by
  rw [← openAfter_filter x, h, openAfter_filter]

theorem isParen_of_isBlank {c : Char} (h : isBlank c = true) : isParen c = false := by
  rw [Bool.eq_false_iff]
  intro hparen
  simp only [isParen, Bool.or_eq_true, beq_iff_eq] at hparen
  rcases hparen with rfl | rfl <;> exact absurd h (by decide)

theorem filter_isParen_blanks {gap : List Char} (h : ∀ c ∈ gap, isBlank c = true) :
    gap.filter isParen = [] := by
  rw [List.filter_eq_nil_iff]
  intro c hc
  simp [isParen_of_isBlank (h c hc)]

theorem filter_isParen_trim (cs : List Char) : (trim cs).filter isParen = cs.filter isParen := by
  obtain ⟨front, back, hfront, hback, heq⟩ := trim_split cs
  conv => rhs; rw [heq]
  simp [filter_isParen_blanks hfront, filter_isParen_blanks hback]

/-! ## Commas between parts -/

/-- What a character adds to the number of open brackets. -/
def bracketStep (c : Char) : Int :=
  if c = '(' || c = '[' || c = '<' then 1 else if c = ')' || c = ']' || c = '>' then -1 else 0

/-- How many more brackets a text opens than it closes. -/
def balance : List Char → Int
  | [] => 0
  | c :: cs => bracketStep c + balance cs

@[simp] theorem balance_nil : balance [] = 0 := rfl

@[simp] theorem balance_cons (c : Char) (cs : List Char) :
    balance (c :: cs) = bracketStep c + balance cs := rfl

@[simp] theorem balance_append (x y : List Char) : balance (x ++ y) = balance x + balance y := by
  induction x with
  | nil => rw [List.nil_append, balance_nil, Int.zero_add]
  | cons c x ih => rw [List.cons_append, balance_cons, balance_cons, ih, Int.add_assoc]

/-- No comma stands where no bracket is open, if `depth` are open in front. -/
def Undivided (depth : Int) : List Char → Prop
  | [] => True
  | c :: rest => ¬(c = ',' ∧ depth = 0) ∧ Undivided (depth + bracketStep c) rest

theorem undivided_append {x y : List Char} : ∀ {depth : Int},
    Undivided depth (x ++ y) ↔ Undivided depth x ∧ Undivided (depth + balance x) y := by
  induction x with
  | nil => simp [Undivided]
  | cons c x ih => simp [Undivided, ih, and_assoc, Int.add_assoc]

theorem undivided_of_noComma {x : List Char} (h : ',' ∉ x) : ∀ depth, Undivided depth x := by
  induction x with
  | nil => exact fun _ => trivial
  | cons c x ih =>
    rw [List.mem_cons, not_or] at h
    exact fun _ => ⟨fun hc => h.1 hc.1.symm, ih h.2 _⟩

theorem bracketStep_of_isBlank {c : Char} (h : isBlank c = true) : bracketStep c = 0 := by
  have hne (d : Char) (hd : isBlank d = false) : c ≠ d := by
    rintro rfl
    rw [h] at hd
    cases hd
  simp [bracketStep, hne '(' (by decide), hne '[' (by decide), hne '<' (by decide),
    hne ')' (by decide), hne ']' (by decide), hne '>' (by decide)]

theorem balance_blanks {gap : List Char} (h : ∀ c ∈ gap, isBlank c = true) : balance gap = 0 := by
  induction gap with
  | nil => rfl
  | cons c gap ih =>
    rw [balance_cons, bracketStep_of_isBlank (h c List.mem_cons_self),
      ih fun d hd => h d (List.mem_cons_of_mem _ hd), Int.add_zero]

theorem balance_trim (cs : List Char) : balance (trim cs) = balance cs := by
  obtain ⟨front, back, hfront, hback, heq⟩ := trim_split cs
  conv => rhs; rw [heq]
  simp [balance_blanks hfront, balance_blanks hback]

theorem undivided_trim {cs : List Char} {depth : Int} (h : Undivided depth cs) :
    Undivided depth (trim cs) := by
  obtain ⟨front, back, hfront, -, heq⟩ := trim_split cs
  rw [heq, undivided_append, undivided_append, balance_blanks hfront, Int.add_zero] at h
  exact h.2.1

/-! ## Lists of parts -/

/-- Parts that stay apart when commas are put between them: each is without white space at its ends and
undivided, and each but the last closes the brackets it opens. -/
structure PartsApart (parts : List (List Char)) : Prop where
  trimmed : ∀ p ∈ parts, trim p = p
  undivided : ∀ p ∈ parts, Undivided 0 p
  closed : ∀ p ∈ parts.dropLast, balance p = 0

theorem splitParams_ne_nil (cs : List Char) : ∀ (part : List Char) (depth : Int),
    splitParams part depth cs ≠ [] := by
  induction cs with
  | nil => exact fun _ _ => List.cons_ne_nil _ _
  | cons c cs ih =>
    intro part depth
    unfold splitParams
    split
    · exact List.cons_ne_nil _ _
    · exact ih _ _

theorem splitParams_cons {c : Char} {depth : Int} (h : ¬(c = ',' ∧ depth = 0)) (part cs : List Char) :
    splitParams part depth (c :: cs) = splitParams (c :: part) (depth + bracketStep c) cs := by
  rw [splitParams, if_neg h]
  unfold bracketStep
  split
  · rfl
  · split
    · rfl
    · rw [Int.add_zero]

/-- **What a list is split into stays apart, and has all its parentheses.** -/
theorem apart_splitParams (cs : List Char) : ∀ {part : List Char} {depth : Int},
    Undivided 0 part.reverse → balance part.reverse = depth →
      PartsApart (splitParams part depth cs) ∧
        (splitParams part depth cs).flatten.filter isParen = (part.reverse ++ cs).filter isParen := by
  induction cs with
  | nil =>
    intro part depth hpart _
    simp only [splitParams]
    refine ⟨⟨?_, ?_, by simp⟩, by simp [filter_isParen_trim, -List.filter_reverse]⟩
    · simpa using trim_trim part.reverse
    · simpa using undivided_trim hpart
  | cons c cs ih =>
    intro part depth hpart hdepth
    by_cases hcomma : c = ',' ∧ depth = 0
    · obtain ⟨hrest, hparens⟩ : PartsApart (splitParams [] 0 cs) ∧
          (splitParams [] 0 cs).flatten.filter isParen = cs.filter isParen := ih trivial rfl
      rw [splitParams, if_pos hcomma]
      refine ⟨⟨?_, ?_, ?_⟩, ?_⟩
      · exact List.forall_mem_cons.mpr ⟨trim_trim _, hrest.trimmed⟩
      · exact List.forall_mem_cons.mpr ⟨undivided_trim hpart, hrest.undivided⟩
      · rw [List.dropLast_cons_of_ne_nil (splitParams_ne_nil cs [] 0)]
        refine List.forall_mem_cons.mpr ⟨?_, hrest.closed⟩
        rw [balance_trim, hdepth, hcomma.2]
      · have hmark : (',' :: cs).filter isParen = cs.filter isParen := rfl
        rw [List.flatten_cons, List.filter_append, hparens, filter_isParen_trim, hcomma.1,
          List.filter_append part.reverse, hmark]
    · rw [splitParams_cons hcomma]
      have hnext : Undivided 0 (c :: part).reverse := by
        rw [List.reverse_cons, undivided_append, hdepth]
        exact ⟨hpart, by simpa using hcomma, trivial⟩
      have hcount : balance (c :: part).reverse = depth + bracketStep c := by simp [hdepth]
      obtain ⟨happart, hparens⟩ := ih hnext hcount
      exact ⟨happart, by rw [hparens]; simp⟩

theorem apart_splitParams_nil (cs : List Char) : PartsApart (splitParams [] 0 cs) ∧
    (splitParams [] 0 cs).flatten.filter isParen = cs.filter isParen :=
  apart_splitParams cs trivial rfl

theorem splitParams_undivided (cs : List Char) : ∀ {part : List Char} {depth : Int},
    Undivided depth cs → splitParams part depth cs = [trim (part.reverse ++ cs)] := by
  induction cs with
  | nil => intro part depth _; simp [splitParams]
  | cons c cs ih =>
    intro part depth h
    rw [splitParams_cons h.1, ih h.2]
    simp

theorem splitParams_comma {x rest : List Char} : ∀ {part : List Char} {depth : Int},
    Undivided depth x → depth + balance x = 0 →
      splitParams part depth (x ++ ',' :: rest) =
        trim (part.reverse ++ x) :: splitParams [] 0 rest := by
  induction x with
  | nil =>
    intro part depth _ hclosed
    have hdepth : depth = 0 := by simpa using hclosed
    rw [List.nil_append, splitParams, if_pos ⟨rfl, hdepth⟩, List.append_nil]
  | cons c x ih =>
    intro part depth h hclosed
    rw [List.cons_append, splitParams_cons h.1, ih h.2 (by rw [← hclosed, balance_cons, Int.add_assoc])]
    simp

/-- White space in front of the first part means nothing. -/
theorem splitParams_blank {b : Char} (hb : isBlank b = true) (cs : List Char) :
    ∀ (part : List Char) (depth : Int),
      splitParams (part ++ [b]) depth cs = splitParams part depth cs := by
  have htrim (part : List Char) : trim (part ++ [b]).reverse = trim part.reverse := by
    have hfront : ∀ c ∈ [b], isBlank c = true := by simpa using hb
    have hskip : trim ([b] ++ (part.reverse ++ [])) = trim part.reverse :=
      trim_blanks hfront (List.forall_mem_nil _)
    rwa [List.append_nil, ← List.reverse_singleton, ← List.reverse_append] at hskip
  induction cs with
  | nil => intro part depth; rw [splitParams, splitParams, htrim]
  | cons c cs ih =>
    intro part depth
    by_cases hcomma : c = ',' ∧ depth = 0
    · rw [splitParams, if_pos hcomma, splitParams, if_pos hcomma, htrim]
    · rw [splitParams_cons hcomma, splitParams_cons hcomma, ← List.cons_append, ih]

/-- **Parts that stay apart are split again as they were joined.** -/
theorem splitParams_intercalate {parts : List (List Char)} (hne : parts ≠ []) (h : PartsApart parts) :
    splitParams [] 0 ([',', ' '].intercalate parts) = parts := by
  induction parts with
  | nil => exact absurd rfl hne
  | cons p rest ih =>
    have hp := h.trimmed p List.mem_cons_self
    have hwhole := h.undivided p List.mem_cons_self
    cases rest with
    | nil =>
      rw [List.intercalate_singleton, splitParams_undivided p hwhole]
      exact congrArg (fun q => [q]) hp
    | cons q rest =>
      have htail : PartsApart (q :: rest) :=
        ⟨fun r hr => h.trimmed r (List.mem_cons_of_mem _ hr),
          fun r hr => h.undivided r (List.mem_cons_of_mem _ hr),
          fun r hr => h.closed r (List.mem_cons_of_mem _ hr)⟩
      have hclosed : balance p = 0 := h.closed p List.mem_cons_self
      have hgap : splitParams [] 0 (' ' :: [',', ' '].intercalate (q :: rest)) =
          splitParams [] 0 ([',', ' '].intercalate (q :: rest)) := by
        rw [splitParams_cons (by decide)]
        exact splitParams_blank (by decide) _ [] 0
      have hjoin : [',', ' '].intercalate (p :: q :: rest) =
          p ++ ',' :: ' ' :: [',', ' '].intercalate (q :: rest) := by
        rw [List.intercalate_cons_cons, List.append_assoc]
        rfl
      rw [hjoin, splitParams_comma hwhole (by rw [hclosed]; rfl), hgap,
        ih (List.cons_ne_nil _ _) htail]
      exact congrArg (· :: q :: rest) hp

end LuaGlue
