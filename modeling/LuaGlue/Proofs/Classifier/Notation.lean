import LuaGlue.Command.Run
import LuaGlue.Proofs.Classifier.Answers
import LuaGlue.Proofs.Classifier.Inert
import LuaGlue.Proofs.Classifier.Leaves
import LuaGlue.Proofs.Code.Spelling
import LuaGlue.Proofs.Naming.Identifiers

/-!
# Reading the notation

The notation of a category has no closing bracket for a pointer, for a name or for the result of a callback,
and a pointer to a struct is written like a pointer to anything. It can be read all the same, because of what
the classifier answers (`Category.Told`): names are made of letters, digits and underscores, and what is known
of the value behind a pointer is said in one way only. So how a notation begins says which sort of category it
is (`Category.Told.openingOf_text`), and where it ends is seen from the character behind it
(`NotationEnds`), which closes an array or a list of parameters or stands between two of them.

Two notations at the beginning of one text are therefore of the same category (`Category.Told.legible`, by
induction on the first of them), and so are two lines, which are about the same spelling as well
(`notation_unambiguous`).
-/

set_option autoImplicit false

namespace LuaGlue

open Text

/-! ## Cutting a text -/

section

variable {p : Char → Bool} {a b x y : List Char}

theorem head_cons {c : Char} (h : p c = false) (rest : List Char) :
    ∀ d ∈ (c :: rest).head?, p d = false := by
  intro d hd
  obtain rfl := Option.some.inj hd
  exact h

theorem dropWhile_word (ha : ∀ c ∈ a, p c = true) (hx : ∀ c ∈ x.head?, p c = false) :
    (a ++ x).dropWhile p = x := by
  rw [List.dropWhile_append_of_pos ha]
  cases x with
  | nil => rfl
  | cons c rest => exact List.dropWhile_cons_of_neg (by simp [hx c rfl])

/-- Where the characters of a word end, a text can be cut. -/
theorem word_cancel (ha : ∀ c ∈ a, p c = true) (hb : ∀ c ∈ b, p c = true)
    (hx : ∀ c ∈ x.head?, p c = false) (hy : ∀ c ∈ y.head?, p c = false) (h : a ++ x = b ++ y) :
    a = b ∧ x = y := by
  have hrest : x = y := by
    rw [← dropWhile_word ha hx, h, dropWhile_word hb hy]
  subst hrest
  exact ⟨List.append_cancel_right h, rfl⟩

end

/-- What may follow a notation: nothing, or what stands behind the elements of an array or behind a
parameter. -/
def NotationEnds (x : List Char) : Prop := ∀ c ∈ x.head?, c ∈ [',', ')', ';']

theorem NotationEnds.nil : NotationEnds [] := fun _ h => nomatch h

theorem NotationEnds.cons {c : Char} (hc : c ∈ [',', ')', ';']) (rest : List Char) :
    NotationEnds (c :: rest) := by
  intro d hd
  obtain rfl := Option.some.inj hd
  exact hc

theorem NotationEnds.head {x : List Char} (h : NotationEnds x) : ∀ c ∈ x.head?, isNameChar c = false := by
  intro c hc
  have hc := h c hc
  simp only [List.mem_cons, List.not_mem_nil, or_false] at hc
  rcases hc with rfl | rfl | rfl <;> rfl

/-! ## What the classifier answers -/

namespace Category

/-- A notation as a list of characters. -/
def text (c : Category) : List Char := c.describe.toList

/-- A struct's value or an enum's. -/
def called (name : String) : Option Shape → Category
  | some shape => .structValue name shape
  | none => .enum name

/-- The word that stands before a name. -/
def sortWord : Option Shape → String
  | some shape => shape.word
  | none => "enum"

/-- The category of a pointer to a value of the given category. -/
def behind (isConst : Bool) : Category → Category
  | .structValue name shape => .structPointer name shape isConst
  | .void => .handle isConst
  | c => .pointer c isConst

/-- The categories whose notation is one word. -/
def worded : List Category := [.void, .cstring, .unknown] ++ numbers

/-- The sorts of notation. -/
inductive Opening where
  | word
  | called
  | behind
  | array
  | callback
  /-- What no category's notation begins with. -/
  | other
  deriving Inhabited

/-- A category that the notation tells from the others, and the sort of its notation: names are made of letters,
digits and underscores, and pointers to structs and to nothing are no `pointer`s. -/
inductive Told : Opening → Category → Prop where
  | word {c : Category} (h : c ∈ worded) : Told .word c
  | called {name : String} (h : Text.Over NameChar name) (shape : Option Shape) :
      Told .called (called name shape)
  | behind {o : Opening} {c : Category} (h : Told o c) (isConst : Bool) : Told .behind (c.behind isConst)
  | array {o : Opening} {elem : Category} (helem : Told o elem) (size : Nat) :
      Told .array (.fixedArray elem size)
  | callback {o : Opening} {opens : Category → Opening} {result : Category} {params : List Category}
      (hresult : Told o result) (hparams : ∀ p ∈ params, Told (opens p) p) (variadic : Bool) :
      Told .callback (.callback result params variadic)

/-- The notation tells the category from the others. -/
def IsTold (c : Category) : Prop := ∃ o, Told o c

theorem isTold_integer {kind : IntegerKind} (h : kind.bits ∈ [8, 16, 32, 64]) : IsTold (.integer kind) := by
  obtain ⟨bits, signed⟩ := kind
  have hnumber : Category.integer ⟨bits, signed⟩ ∈ numbers := by
    refine List.mem_append_right _ (List.mem_flatMap.mpr ⟨bits, h, ?_⟩)
    cases signed <;> simp
  exact ⟨_, .word (List.mem_append_right _ hnumber)⟩

theorem isTold_float (kind : FloatKind) : IsTold (.float kind) := by
  cases kind <;> exact ⟨_, .word (by simp [worded, numbers])⟩

/-- A pointer is text, or what is behind it is the category of its base, or nothing is known of that. -/
theorem classifyPointer_cases (index : TypeIndex) (base : String) (isConst : Bool) :
    classifyPointer index base isConst = .cstring ∨
      classifyPointer index base isConst = (classifyBase index base).behind isConst ∨
      classifyPointer index base isConst = behind isConst .void := by
  unfold classifyPointer
  split
  · exact .inl rfl
  · split <;> rename_i heq
    case h_6 => exact .inr (.inr rfl)
    all_goals
      rw [heq]
      exact .inr (.inl rfl)

theorem IsTold.array {elem : Category} (helem : IsTold elem) (size : Nat) :
    IsTold (.fixedArray elem size) := by
  obtain ⟨o, helem⟩ := helem
  exact ⟨_, helem.array size⟩

theorem IsTold.callback {result : Category} {params : List Category} (hresult : IsTold result)
    (hparams : ∀ p ∈ params, IsTold p) (variadic : Bool) :
    IsTold (.callback result params variadic) := by
  obtain ⟨o, hresult⟩ := hresult
  choose! opens hparams using hparams
  exact ⟨_, .callback hresult hparams variadic⟩

section

variable {index : TypeIndex} (hindex : ∀ name ∈ index.names, Text.Over NameChar name)

include hindex

theorem isTold_classifyBase (base : String) : IsTold (classifyBase index base) := by
  rcases classifyBase_cases index base with h | ⟨shape, hshape, h⟩ | ⟨-, henum, h⟩ | h | h
  · obtain hc | hc | ⟨kind, hc⟩ | ⟨kind, hc, hbits⟩ := builtin?_cases h <;> rw [hc]
    · exact ⟨_, .word (by simp [worded])⟩
    · exact ⟨_, .word (by simp [worded, numbers])⟩
    · exact isTold_float kind
    · exact isTold_integer hbits
  · rw [h]
    exact ⟨_, .called (about_of_shape? hindex hshape) (some shape)⟩
  · rw [h]
    exact ⟨_, .called (hindex base (by simp_all [TypeIndex.names])) none⟩
  · rw [h]
    exact isTold_integer (by decide)
  · rw [h]
    exact ⟨_, .word (by simp [worded])⟩

theorem isTold_classifyPointer (base : String) (isConst : Bool) :
    IsTold (classifyPointer index base isConst) := by
  rcases classifyPointer_cases index base isConst with h | h | h <;> rw [h]
  · exact ⟨_, .word (by simp [worded])⟩
  · obtain ⟨o, hbase⟩ := isTold_classifyBase hindex base
    exact ⟨_, hbase.behind isConst⟩
  · exact ⟨_, .behind (.word (by simp [worded])) isConst⟩

/-- **What the classifier answers is told from the rest.** -/
theorem closed_isTold : Category.Closed index IsTold where
  unknown := ⟨_, .word (by simp [worded])⟩
  base := isTold_classifyBase hindex
  pointer := isTold_classifyPointer hindex
  array := fun size helem => helem.array size
  callback := fun variadic hresult hparams => hresult.callback hparams variadic

end

/-! ## Notations as lists of characters -/

/-- What the text behind its first word says of a notation. -/
def afterWord : List Char → Opening
  | ' ' :: _ => .called
  | '(' :: _ => .callback
  | _ => .word

/-- The sort of the notation that a text begins with. -/
def openingOf : List Char → Opening
  | '*' :: _ => .behind
  | '[' :: _ => .array
  | '.' :: _ | ')' :: _ => .other
  | cs => afterWord (cs.dropWhile isNameChar)

attribute [local simp] describe describeParams

theorem text_called (name : String) (shape : Option Shape) :
    (called name shape).text = (sortWord shape).toList ++ ' ' :: name.toList := by
  cases shape <;> simp [called, sortWord, text]

theorem text_behind (c : Category) (isConst : Bool) :
    (c.behind isConst).text = (constWord isConst).toList ++ ' ' :: c.text := by
  cases c <;> simp [behind, text]

theorem text_fixedArray (elem : Category) (size : Nat) :
    (Category.fixedArray elem size).text =
      '[' :: (elem.text ++ ';' :: ' ' :: ((toString size).toList ++ [']'])) := by
  simp [text]

/-- A parameter, or what stands for parameters of any number. -/
def itemText : Option Category → List Char
  | some c => c.text
  | none => "...".toList

/-- What stands between the parentheses of a callback. -/
def items (params : List Category) (variadic : Bool) : List (Option Category) :=
  params.map some ++ if variadic then [none] else []

/-- Items behind other ones. -/
def moreText (rest : List (Option Category)) : List Char :=
  rest.flatMap fun i => ',' :: ' ' :: itemText i

/-- Items, a comma between them. -/
def itemsText : List (Option Category) → List Char
  | [] => []
  | i :: rest => itemText i ++ moreText rest

theorem items_inj {params params' : List Category} {variadic variadic' : Bool}
    (h : items params variadic = items params' variadic') : params = params' ∧ variadic = variadic' := by
  have hparams (ps : List Category) (v : Bool) : (items ps v).filterMap id = ps := by
    cases v <;> simp [items, List.filterMap_append]
  have hvariadic (ps : List Category) (v : Bool) : none ∈ items ps v ↔ v = true := by
    cases v <;> simp [items]
  refine ⟨?_, Bool.eq_iff_iff.mpr ?_⟩
  · rw [← hparams params variadic, h, hparams]
  · rw [← hvariadic params variadic, h, hvariadic]

theorem toList_describeParams (p : Category) (rest : List Category) :
    (describeParams (p :: rest)).toList = itemsText ((p :: rest).map some) := by
  induction rest generalizing p with
  | nil => simp [itemsText, itemText, moreText, text]
  | cons q rest ih =>
    rw [describeParams, String.toList_append, String.toList_append, ih]
    · simp [itemsText, itemText, moreText, text]
    · simp

theorem text_params (params : List Category) (variadic : Bool) :
    (describeParams params ++ variadicMark params variadic).toList = itemsText (items params variadic) := by
  cases params with
  | nil => cases variadic <;> rfl
  | cons p rest =>
    rw [String.toList_append, toList_describeParams]
    cases variadic <;> simp [variadicMark, items, itemsText, moreText, itemText]

theorem text_callback (result : Category) (params : List Category) (variadic : Bool) :
    (Category.callback result params variadic).text =
      "fn(".toList ++ (itemsText (items params variadic) ++ (") -> ".toList ++ result.text)) := by
  rw [← text_params]
  simp [text]

/-! ## How a notation begins -/

theorem openingOf_word {w x : List Char} (hne : w ≠ []) (hw : ∀ c ∈ w, isNameChar c = true)
    (hx : ∀ c ∈ x.head?, isNameChar c = false) : openingOf (w ++ x) = afterWord x := by
  obtain ⟨c, rest, rfl⟩ := List.exists_cons_of_ne_nil hne
  have hc := hw c List.mem_cons_self
  unfold openingOf
  split
  case h_5 => rw [dropWhile_word hw hx]
  all_goals
    rename_i heq
    obtain ⟨rfl, -⟩ := List.cons.inj heq
    cases hc

theorem afterWord_of_ends {x : List Char} (h : NotationEnds x) : afterWord x = .word := by
  unfold afterWord
  split
  · exact absurd (h ' ' rfl) (by simp)
  · exact absurd (h '(' rfl) (by simp)
  · rfl

theorem worded_facts : ∀ c ∈ worded,
    c.text.all isNameChar = true ∧ c.text ≠ [] := by
  decide +kernel

theorem worded_nodup : (worded.map text).Nodup := by decide +kernel

theorem sortWord_nameChar (shape : Option Shape) : ∀ c ∈ (sortWord shape).toList, isNameChar c = true := by
  refine List.all_eq_true.mp ?_
  cases shape with
  | none => rfl
  | some shape => cases shape <;> rfl

theorem sortWord_inj {shape shape' : Option Shape}
    (h : (sortWord shape).toList = (sortWord shape').toList) : shape = shape' := by
  revert h
  rcases shape with _ | _ | _ | _ <;> rcases shape' with _ | _ | _ | _ <;> decide

theorem sortWord_ne_nil (shape : Option Shape) : (sortWord shape).toList ≠ [] := by
  rcases shape with _ | _ | _ | _ <;> decide

/-- **The beginning of a notation says of which sort it is.** -/
theorem Told.openingOf_text {o : Opening} {c : Category} (hc : Told o c) {x : List Char} (hx : NotationEnds x) :
    openingOf (c.text ++ x) = o := by
  cases hc with
  | word h =>
    obtain ⟨hall, hne⟩ := worded_facts c h
    rw [openingOf_word hne (List.all_eq_true.mp hall) hx.head, afterWord_of_ends hx]
  | called h shape =>
    rw [text_called, List.append_assoc, List.cons_append,
      openingOf_word (sortWord_ne_nil shape) (sortWord_nameChar shape) (head_cons rfl _)]
    rfl
  | behind h isConst =>
    rw [text_behind]
    cases isConst <;> rfl
  | array helem size =>
    rw [text_fixedArray]
    rfl
  | callback hresult hparams variadic =>
    rw [text_callback]
    rfl

theorem IsTold.not_other {c : Category} (hc : IsTold c) {x : List Char} (hx : NotationEnds x) :
    openingOf (c.text ++ x) ≠ .other := by
  obtain ⟨o, hc⟩ := hc
  rw [hc.openingOf_text hx]
  rintro rfl
  cases hc

/-! ## One notation for one category -/

/-- No other category has the same notation, whatever follows the two of them. -/
def Legible (c : Category) : Prop :=
  ∀ {o : Opening} {d : Category} {x y : List Char}, Told o d → NotationEnds x → NotationEnds y →
    c.text ++ x = d.text ++ y → c = d ∧ x = y

/-- Text that begins with two notations begins with one sort of them. -/
theorem Told.opening_eq {o o' : Opening} {c d : Category} {x y : List Char} (hc : Told o c)
    (hd : Told o' d) (hx : NotationEnds x) (hy : NotationEnds y) (h : c.text ++ x = d.text ++ y) : o = o' := by
  rw [← hc.openingOf_text hx, h, hd.openingOf_text hy]

theorem legible_word {c : Category} (hc : c ∈ worded) : c.Legible := by
  intro o d x y hd hx hy h
  obtain rfl : Opening.word = o := Told.opening_eq (.word hc) hd hx hy h
  cases hd with
  | word hd =>
    obtain ⟨htext, hrest⟩ := word_cancel (List.all_eq_true.mp (worded_facts c hc).1)
      (List.all_eq_true.mp (worded_facts d hd).1) hx.head hy.head h
    exact ⟨List.inj_on_of_nodup_map worded_nodup hc hd htext, hrest⟩

theorem legible_called {name : String} (hname : Text.Over NameChar name) (shape : Option Shape) :
    (called name shape).Legible := by
  intro o d x y hd hx hy h
  obtain rfl : Opening.called = o := Told.opening_eq (.called hname shape) hd hx hy h
  cases hd with
  | @called name' hname' shape' =>
    rw [text_called, text_called, List.append_assoc, List.append_assoc] at h
    obtain ⟨hword, hrest⟩ := word_cancel (sortWord_nameChar shape) (sortWord_nameChar shape')
      (head_cons rfl _) (head_cons rfl _) h
    obtain ⟨hname, hrest⟩ := word_cancel hname hname' hx.head hy.head (List.cons.inj hrest).2
    rw [sortWord_inj hword, String.toList_inj.mp hname]
    exact ⟨rfl, hrest⟩

theorem constWord_cancel {isConst isConst' : Bool} {x y : List Char}
    (h : (constWord isConst).toList ++ ' ' :: x = (constWord isConst').toList ++ ' ' :: y) :
    isConst = isConst' ∧ x = y := by
  cases isConst <;> cases isConst' <;> simp [constWord] at h ⊢ <;> exact h

theorem Legible.behind {o : Opening} {c : Category} (ih : c.Legible) (hc : Told o c) (isConst : Bool) :
    (c.behind isConst).Legible := by
  intro o' d x y hd hx hy h
  obtain rfl : Opening.behind = o' := (hc.behind isConst).opening_eq hd hx hy h
  cases hd with
  | behind hpointee isConst' =>
    rw [text_behind, text_behind, List.append_assoc, List.append_assoc] at h
    obtain ⟨rfl, hrest⟩ := constWord_cancel h
    obtain ⟨rfl, htail⟩ := ih hpointee hx hy hrest
    exact ⟨rfl, htail⟩

theorem size_cancel {m n : Nat} {x y : List Char}
    (h : (toString m).toList ++ ']' :: x = (toString n).toList ++ ']' :: y) : m = n ∧ x = y := by
  have hdigits (k : Nat) : ∀ c ∈ (toString k).toList, c.isDigit = true := fun _ => isDigit_of_mem_toString
  obtain ⟨hsize, hrest⟩ := word_cancel (hdigits m) (hdigits n) (head_cons rfl _) (head_cons rfl _) h
  exact ⟨toString_inj (String.toList_inj.mp hsize), (List.cons.inj hrest).2⟩

theorem Legible.array {o : Opening} {elem : Category} (ih : elem.Legible) (helem : Told o elem)
    (size : Nat) : (Category.fixedArray elem size).Legible := by
  intro o' d x y hd hx hy h
  obtain rfl : Opening.array = o' := (helem.array size).opening_eq hd hx hy h
  cases hd with
  | array helem' size' =>
    rw [text_fixedArray, text_fixedArray] at h
    simp only [List.cons_append, List.append_assoc, List.cons.injEq, true_and] at h
    obtain ⟨rfl, hrest⟩ := ih helem' (.cons (by simp) _) (.cons (by simp) _) h
    obtain ⟨rfl, htail⟩ := size_cancel (List.cons.inj (List.cons.inj hrest).2).2
    exact ⟨rfl, htail⟩

/-- Items are told apart as categories are, and the mark for more of them from those. -/
theorem item_cancel {i j : Option Category} {x y : List Char}
    (hi : ∀ p ∈ i, p.IsTold ∧ p.Legible) (hj : ∀ q ∈ j, q.IsTold) (hx : NotationEnds x)
    (hy : NotationEnds y) (h : itemText i ++ x = itemText j ++ y) : i = j ∧ x = y := by
  cases i with
  | none =>
    cases j with
    | none => exact ⟨rfl, List.append_cancel_left h⟩
    | some q => exact absurd (congrArg openingOf h.symm) ((hj q rfl).not_other hy)
  | some p =>
    cases j with
    | none => exact absurd (congrArg openingOf h) ((hi p rfl).1.not_other hx)
    | some q =>
      obtain ⟨o, hq⟩ := hj q rfl
      obtain ⟨rfl, hrest⟩ := (hi p rfl).2 hq hx hy h
      exact ⟨rfl, hrest⟩

section

variable {x y : List Char}

theorem moreText_cons (i : Option Category) (rest : List (Option Category)) :
    moreText (i :: rest) = ',' :: ' ' :: (itemText i ++ moreText rest) := rfl

theorem ends_moreText (rest : List (Option Category)) : NotationEnds (moreText rest ++ ')' :: x) := by
  cases rest with
  | nil => exact .cons (by simp) _
  | cons i rest => exact .cons (by simp) _

/-- Items behind other ones are taken off one after the other. -/
theorem more_cancel {is : List (Option Category)} (his : ∀ i ∈ is, ∀ p ∈ i, p.IsTold ∧ p.Legible) :
    ∀ {js : List (Option Category)}, (∀ j ∈ js, ∀ q ∈ j, q.IsTold) →
      moreText is ++ ')' :: x = moreText js ++ ')' :: y → is = js ∧ x = y := by
  induction is with
  | nil =>
    intro js _ h
    cases js with
    | nil => exact ⟨rfl, (List.cons.inj h).2⟩
    | cons j rest => exact absurd (List.cons.inj h).1 (by decide)
  | cons i rest ih =>
    intro js hjs h
    cases js with
    | nil => exact absurd (List.cons.inj h).1 (by decide)
    | cons j rest' =>
      obtain ⟨hi, hrest⟩ := List.forall_mem_cons.mp his
      obtain ⟨hj, hrest'⟩ := List.forall_mem_cons.mp hjs
      simp only [moreText_cons, List.cons_append, List.append_assoc, List.cons.injEq, true_and] at h
      obtain ⟨rfl, hmore⟩ := item_cancel hi hj (ends_moreText rest) (ends_moreText rest') h
      obtain ⟨rfl, htail⟩ := ih hrest hrest' hmore
      exact ⟨rfl, htail⟩

/-- No item begins with what closes a list of them. -/
theorem close_ne_item {j : Option Category} (hj : ∀ q ∈ j, q.IsTold) (hy : NotationEnds y) :
    ')' :: x ≠ itemText j ++ y := by
  intro h
  cases j with
  | none => exact absurd (List.cons.inj h).1 (by decide)
  | some q => exact (hj q rfl).not_other hy (congrArg openingOf h.symm)

theorem items_cancel {is js : List (Option Category)} (his : ∀ i ∈ is, ∀ p ∈ i, p.IsTold ∧ p.Legible)
    (hjs : ∀ j ∈ js, ∀ q ∈ j, q.IsTold) (h : itemsText is ++ ')' :: x = itemsText js ++ ')' :: y) :
    is = js ∧ x = y := by
  cases is with
  | nil =>
    cases js with
    | nil => exact ⟨rfl, (List.cons.inj h).2⟩
    | cons j rest =>
      rw [itemsText, itemsText, List.nil_append, List.append_assoc] at h
      exact absurd h (close_ne_item (hjs j List.mem_cons_self) (ends_moreText rest))
  | cons i rest =>
    obtain ⟨hi, hrest⟩ := List.forall_mem_cons.mp his
    cases js with
    | nil =>
      rw [itemsText, itemsText, List.nil_append, List.append_assoc] at h
      exact absurd h.symm (close_ne_item (fun p hp => (hi p hp).1) (ends_moreText rest))
    | cons j rest' =>
      obtain ⟨hj, hrest'⟩ := List.forall_mem_cons.mp hjs
      rw [itemsText, itemsText, List.append_assoc, List.append_assoc] at h
      obtain ⟨rfl, hmore⟩ := item_cancel hi hj (ends_moreText rest) (ends_moreText rest') h
      obtain ⟨rfl, htail⟩ := more_cancel hrest hrest' hmore
      exact ⟨rfl, htail⟩

end

theorem mem_items {params : List Category} {variadic : Bool} {i : Option Category} {p : Category}
    (hi : i ∈ items params variadic) (hp : p ∈ i) : p ∈ params := by
  obtain rfl : i = some p := hp
  cases variadic <;> simpa [items] using hi

theorem Legible.callback {o : Opening} {opens : Category → Opening} {result : Category}
    {params : List Category} (hresult : Told o result) (hparams : ∀ p ∈ params, Told (opens p) p)
    (ihresult : result.Legible) (ihparams : ∀ p ∈ params, p.Legible) (variadic : Bool) :
    (Category.callback result params variadic).Legible := by
  intro o' d x y hd hx hy h
  obtain rfl : Opening.callback = o' := (Told.callback hresult hparams variadic).opening_eq hd hx hy h
  cases hd with
  | @callback _ opens' result' params' hresult' hparams' variadic' =>
    simp only [text_callback, List.append_assoc, List.append_cancel_left_eq] at h
    obtain ⟨hitems, hrest⟩ := items_cancel
      (fun i hi p hp => ⟨⟨_, hparams p (mem_items hi hp)⟩, ihparams p (mem_items hi hp)⟩)
      (fun j hj q hq => ⟨_, hparams' q (mem_items hj hq)⟩) h
    obtain ⟨rfl, rfl⟩ := items_inj hitems
    obtain ⟨rfl, htail⟩ := ihresult hresult' hx hy (List.append_cancel_left hrest)
    exact ⟨rfl, htail⟩

/-- **What the notation tells from the rest has its notation for itself.** -/
theorem Told.legible {o : Opening} {c : Category} (hc : Told o c) : c.Legible := by
  induction hc with
  | word h => exact legible_word h
  | called h shape => exact legible_called h shape
  | behind h isConst ih => exact ih.behind h isConst
  | array helem size ih => exact ih.array helem size
  | callback hresult hparams variadic ihresult ihparams =>
    exact Legible.callback hresult hparams ihresult ihparams variadic

theorem IsTold.describe_inj {c d : Category} (hc : IsTold c) (hd : IsTold d)
    (h : c.describe = d.describe) : c = d := by
  obtain ⟨o, hc⟩ := hc
  obtain ⟨o', hd⟩ := hd
  refine (hc.legible hd .nil .nil ?_).1
  rw [List.append_nil, List.append_nil, text, text, h]

theorem equals_not_mem_items {is : List (Option Category)} (h : ∀ i ∈ is, ∀ p ∈ i, '=' ∉ p.text) :
    '=' ∉ itemsText is := by
  have item {i : Option Category} (hi : ∀ p ∈ i, '=' ∉ p.text) : '=' ∉ itemText i := by
    cases i with
    | none => decide
    | some p => exact hi p rfl
  have more {rest : List (Option Category)} (hrest : ∀ i ∈ rest, ∀ p ∈ i, '=' ∉ p.text) :
      '=' ∉ moreText rest := by
    intro hmem
    obtain ⟨i, hi, hmem⟩ := List.mem_flatMap.mp hmem
    simp only [List.mem_cons, Char.reduceEq, false_or] at hmem
    exact item (hrest i hi) hmem
  cases is with
  | nil => exact List.not_mem_nil
  | cons i rest =>
    obtain ⟨hi, hrest⟩ := List.forall_mem_cons.mp h
    rw [itemsText, List.mem_append]
    exact not_or.mpr ⟨item hi, more hrest⟩

theorem equals_not_mem_word {cs : List Char} (h : ∀ c ∈ cs, isNameChar c = true) : '=' ∉ cs :=
  fun hmem => nomatch h '=' hmem

/-- In a notation there is none of what stands before it in a line. -/
theorem Told.equals_not_mem {o : Opening} {c : Category} (hc : Told o c) : '=' ∉ c.text := by
  induction hc with
  | word h => exact equals_not_mem_word (List.all_eq_true.mp (worded_facts _ h).1)
  | called h shape =>
    rw [text_called]
    simpa using ⟨equals_not_mem_word (sortWord_nameChar shape), equals_not_mem_word h⟩
  | behind h isConst ih =>
    rw [text_behind]
    cases isConst <;> simpa [constWord] using ih
  | array helem size ih =>
    have hsize : '=' ∉ (toString size).toList := fun h => nomatch isDigit_of_mem_toString h
    rw [text_fixedArray]
    simp only [List.mem_cons, List.mem_append, List.not_mem_nil, or_false, not_or]
    exact ⟨by decide, ih, by decide, by decide, hsize, by decide⟩
  | @callback _ _ _ params hresult hparams variadic ihresult ihparams =>
    have hitems : '=' ∉ itemsText (items params variadic) :=
      equals_not_mem_items fun i hi p hp => ihparams p (mem_items hi hp)
    rw [text_callback]
    simpa using ⟨hitems, ihresult⟩

end Category

/-! ## Lines -/

/-- The structs and enums have identifiers for names. -/
def TypeIndex.Identifiers (index : TypeIndex) : Prop := ∀ name ∈ index.names, isIdentifier name = true

/-- What some classifier answers after some questions, and arrays and callbacks of such answers, one in
another to any depth. -/
inductive Answered : Category → Prop where
  | answer {index : TypeIndex} (hindex : index.Identifiers) (history : List String) (spelling : String) :
      Answered (categoryAfter index history spelling)
  | array {elem : Category} (helem : Answered elem) (size : Nat) : Answered (.fixedArray elem size)
  | callback {result : Category} {params : List Category} (hresult : Answered result)
      (hparams : ∀ p ∈ params, Answered p) (variadic : Bool) : Answered (.callback result params variadic)

/-- What `classify` prints for some spellings. -/
def linesOf (index : TypeIndex) (spellings : List String) : List String :=
  Classifying.fresh (spellings.mapM (classifyLine index))

section

variable {index : TypeIndex}

theorem TypeIndex.Identifiers.over (h : index.Identifiers) : ∀ name ∈ index.names, Over NameChar name :=
  fun name hname => (isIdentifier_iff.mp (h name hname)).2

theorem TypeIndex.Identifiers.answers_isTold (h : index.Identifiers) (spellings : List String) :
    (spellings.mapM (classify index)).Keeps (Memo.All Category.IsTold) fun cs => ∀ c ∈ cs, c.IsTold :=
  .mapM fun spelling _ => (Category.closed_isTold h.over).classify_keeps spelling

theorem Answered.isTold {c : Category} (h : Answered c) : c.IsTold := by
  induction h with
  | answer hindex history spelling =>
    have hkeeps := (hindex.answers_isTold history).bind fun _ _ =>
      (Category.closed_isTold hindex.over).classify_keeps spelling
    exact (hkeeps {} Memo.all_empty).1
  | array helem size ih => exact ih.array size
  | callback hresult hparams variadic ihresult ihparams => exact ihresult.callback ihparams variadic

/-- The line of a spelling of which the category is known. -/
def lineOf (spelling : String) (c : Category) : String := spelling ++ " => " ++ c.describe

theorem lineOf_inj {spelling spelling' : String} {c d : Category} (hc : c.IsTold) (hd : d.IsTold)
    (h : lineOf spelling c = lineOf spelling' d) : spelling = spelling' ∧ c = d := by
  have hlist (s : String) (e : Category) :
      (lineOf s e).toList = (s.toList ++ [' ']) ++ '=' :: ('>' :: ' ' :: e.text) := by
    simp [lineOf, Category.text]
  have behind {e : Category} (he : e.IsTold) : '=' ∉ '>' :: ' ' :: e.text := by
    obtain ⟨o, he⟩ := he
    simpa using he.equals_not_mem
  have hcut := congrArg String.toList h
  rw [hlist, hlist] at hcut
  obtain ⟨hspelling, hnotation⟩ := last_mark (behind hc) (behind hd) hcut
  refine ⟨String.toList_inj.mp (List.append_cancel_right hspelling), hc.describe_inj hd ?_⟩
  exact String.toList_inj.mp (List.cons.inj (List.cons.inj hnotation).2).2

theorem run_lines (index : TypeIndex) (spellings : List String) (m : Memo) :
    ((spellings.mapM (classifyLine index)).run m).1 =
      List.zipWith lineOf spellings (answers index spellings m) := by
  induction spellings generalizing m with
  | nil => rfl
  | cons spelling rest ih =>
    rw [answers_cons, List.zipWith_cons_cons, ← ih, List.mapM_cons]
    rfl

/-- Each line is about a spelling and its answer. -/
theorem line_at {spellings : List String} {line : String} {k : Nat}
    (h : (linesOf index spellings)[k]? = some line) : ∃ spelling c, spellings[k]? = some spelling ∧
      (answers index spellings {})[k]? = some c ∧ line = lineOf spelling c := by
  change ((spellings.mapM (classifyLine index)).run {}).1[k]? = some line at h
  rw [run_lines, List.getElem?_zipWith_eq_some] at h
  obtain ⟨spelling, c, hspelling, hc, hline⟩ := h
  exact ⟨spelling, c, hspelling, hc, hline.symm⟩

end

/-- **The notation tells categories apart**: answers of classifiers whose structs and enums have identifiers for
names, and arrays and callbacks of such answers, are equal if their notations are; and of two lines that
such classifiers print, in one run or in two, equal ones have the same spelling and the same answer. -/
theorem notation_unambiguous :
    (∀ c d : Category, Answered c → Answered d → c.describe = d.describe → c = d) ∧
      ∀ (index index' : TypeIndex), index.Identifiers → index'.Identifiers →
        ∀ (spellings spellings' : List String) (j k : Nat) (line : String),
          (linesOf index spellings)[j]? = some line → (linesOf index' spellings')[k]? = some line →
            spellings[j]? = spellings'[k]? ∧
              (answers index spellings {})[j]? = (answers index' spellings' {})[k]? := by
  refine ⟨fun c d hc hd h => hc.isTold.describe_inj hd.isTold h, ?_⟩
  intro index index' hindex hindex' spellings spellings' j k line hj hk
  obtain ⟨spelling, c, hspelling, hc, rfl⟩ := line_at hj
  obtain ⟨spelling', d, hspelling', hd, hline⟩ := line_at hk
  have htold := (hindex.answers_isTold spellings {} Memo.all_empty).1 c (List.mem_of_getElem? hc)
  have htold' := (hindex'.answers_isTold spellings' {} Memo.all_empty).1 d (List.mem_of_getElem? hd)
  obtain ⟨rfl, rfl⟩ := lineOf_inj htold htold' hline
  rw [hspelling, hspelling', hc, hd]
  exact ⟨rfl, rfl⟩

/-- One table of names in two runs, and a table that knows less. -/
theorem notation_unambiguous_vec :
    let index : TypeIndex :=
      { structs := ["sg_desc"], tuples := ["Vec2"], aliases := [("On", "void (*)(Vec2[2])")] }
    let other : TypeIndex := { tuples := ["Vec2"] }
    let history : List String := ["On", "sg_desc"]
    (index.Identifiers ∧ other.Identifiers ∧
        (categoryAfter index history "Vec2[2]").describe = (categoryAfter other [] "Vec2[2]").describe ∧
        (linesOf index ["On", "Vec2 *"])[1]? = some "Vec2 * => *mut tuple Vec2" ∧
        (linesOf other ["Vec2 *"])[0]? = some "Vec2 * => *mut tuple Vec2") ∧
      categoryAfter index history "Vec2[2]" = categoryAfter other [] "Vec2[2]" ∧
      (answers index ["On", "Vec2 *"] {})[1]? = (answers other ["Vec2 *"] {})[0]? := by
  intro index other history
  have hindex : index.Identifiers := by
    unfold TypeIndex.Identifiers
    decide +kernel
  have hother : other.Identifiers := by
    unfold TypeIndex.Identifiers
    decide +kernel
  have hdescribe : (categoryAfter index history "Vec2[2]").describe =
      (categoryAfter other [] "Vec2[2]").describe := by decide +kernel
  have hline : (linesOf index ["On", "Vec2 *"])[1]? = some "Vec2 * => *mut tuple Vec2" := by decide +kernel
  have hline' : (linesOf other ["Vec2 *"])[0]? = some "Vec2 * => *mut tuple Vec2" := by decide +kernel
  exact ⟨⟨hindex, hother, hdescribe, hline, hline'⟩,
    notation_unambiguous.1 _ _ (.answer hindex history _) (.answer hother [] _) hdescribe,
    (notation_unambiguous.2 index other hindex hother _ _ 1 0 _ hline hline').2⟩

end LuaGlue
