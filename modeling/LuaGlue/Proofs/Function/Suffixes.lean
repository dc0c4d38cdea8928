import LuaGlue.Function.Overload
import LuaGlue.Proofs.CType.RoundTrip
import LuaGlue.Proofs.Classifier.Leaves
import Mathlib.Data.List.Nodup

/-!
# What a suffix tells

A suffix has a word for every parameter, with an underscore before each. The word for an array is the word
for what is in it with the sizes behind it (`toList_categoryToken`). No word says anything of `const`, but all
else that is to be known of a category should be there to be read.

That is not so for all categories: the width of an integer and the size of an array are both written in
figures, all callbacks share a word, and the words for structs and enums are made by rules that know nothing of
the others. `Legible` says what is needed. Where it holds, overloads have one suffix exactly if their parameters
have the same categories up to `const` (`overloadSuffix_eq_iff`). For each of its conditions there is a pair of
overloads with different parameters and one suffix (`suffixes_confused`).
-/

set_option autoImplicit false

namespace LuaGlue

/-! ## The word for a category -/

/-- The word for what is in an array, and for whatever is no array. -/
def leafToken (n : Naming) (c : Category) : String := categoryToken n c.leaf

/-- Sizes of an array as they are written, one behind the other. -/
def figuresOf (sizes : List Nat) : List Char := sizes.flatMap fun size => (toString size).toList

/-- `w'` is `w` with figures behind it. -/
def goesOnInFigures (w w' : String) : Bool :=
  let rest := w'.toList.drop w.toList.length
  w.toList.isPrefixOf w'.toList && !rest.isEmpty && rest.all Char.isDigit

/-- The words for callbacks and for categories without a name. -/
def plainWords : List String := "fn" :: Category.plain.map (categoryToken {})

variable {n : Naming} {index : TypeIndex} {c c' : Category}

theorem isDigit_of_mem_figuresOf {sizes : List Nat} {d : Char} (h : d ∈ figuresOf sizes) :
    d.isDigit = true := by
  obtain ⟨size, -, hd⟩ := List.mem_flatMap.mp h
  exact isDigit_of_mem_toString hd

theorem figuresOf_ne_nil (h : c.isArray = true) : figuresOf c.sizes ≠ [] := by
  cases c with
  | fixedArray elem size =>
    simp [figuresOf, Category.sizes]
  | _ => cases h

theorem goesOnInFigures_of_append {w w' : String} {rest : List Char} (h : w'.toList = w.toList ++ rest)
    (hne : rest ≠ []) (hdigits : ∀ d ∈ rest, d.isDigit = true) : goesOnInFigures w w' = true := by
  simp only [goesOnInFigures, h, List.drop_left, Bool.and_eq_true, Bool.not_eq_true', List.all_eq_true,
    List.isPrefixOf_iff_prefix, List.isEmpty_eq_false_iff]
  exact ⟨⟨List.prefix_append _ _, hne⟩, hdigits⟩

/-- The sizes of an array stand behind the word for what is in it, the innermost first. -/
theorem toList_categoryToken (n : Naming) (c : Category) :
    (categoryToken n c).toList = (leafToken n c).toList ++ figuresOf c.sizes := by
  induction c using Category.arrayInduction with
  | single c h => simp [leafToken, Category.leaf_of_single h, Category.sizes_of_single h, figuresOf]
  | array elem size ih =>
    rw [categoryToken, String.toList_append, ih]
    simp [leafToken, Category.leaf, Category.sizes, figuresOf]

/-- No word says anything of `const`. -/
theorem categoryToken_constless (n : Naming) :
    ∀ c : Category, categoryToken n c.constless = categoryToken n c
  | .pointer pointee _ => by
    rw [Category.constless, categoryToken, categoryToken, categoryToken_constless n pointee]
  | .fixedArray elem _ => by
    rw [Category.constless, categoryToken, categoryToken, categoryToken_constless n elem]
  | .void | .bool | .integer _ | .float _ | .cstring | .structValue .. | .structPointer .. | .enum _
  | .handle _ | .callback .. | .unknown => rfl

theorem categoryToken_named (n : Naming) (index : TypeIndex) (name : String) (pointer : Bool) :
    categoryToken n (.named index name pointer) = (if pointer then "p" else "") ++ typeToken n name := by
  unfold Category.named
  cases index.shape? name <;> cases pointer <;> simp [categoryToken]

theorem nodup_plainWords : plainWords.Nodup := by decide

theorem mem_plainWords (hc : c ∈ Category.plain) : categoryToken n c ∈ plainWords := by
  have h : plainWords = "fn" :: Category.plain.map (categoryToken n) := rfl
  rw [h]
  exact List.mem_cons_of_mem _ (List.mem_map_of_mem hc)

theorem plain_ne_fn (hc : c ∈ Category.plain) : categoryToken n c ≠ "fn" := by
  intro h
  have hnodup : ("fn" :: Category.plain.map (categoryToken n)).Nodup := nodup_plainWords
  exact (List.nodup_cons.mp hnodup).1 (h ▸ List.mem_map_of_mem hc)

theorem plain_inj (hc : c ∈ Category.plain) (hc' : c' ∈ Category.plain)
    (h : categoryToken n c = categoryToken n c') : c = c' := by
  have hnodup : ("fn" :: Category.plain.map (categoryToken n)).Nodup := nodup_plainWords
  exact List.inj_on_of_nodup_map (List.nodup_cons.mp hnodup).2 hc hc' h

/-! ## Words in a row -/

/-- A word that goes on with the rest of a row is the whole word, if it does not go on with an underscore. -/
theorem glued_seam {w w' rest : List Char} {ws ws' : List (List Char)} (hapart : ¬ (w ++ ['_'] <+: w'))
    (hword : w' = w ++ rest) (hrest : ws.flatMap ('_' :: ·) = rest ++ ws'.flatMap ('_' :: ·)) :
    rest = [] := by
  cases rest with
  | nil => rfl
  | cons x rest =>
    cases ws with
    | nil => simp at hrest
    | cons v ws =>
      rw [List.flatMap_cons, List.cons_append, List.cons_append, List.cons.injEq] at hrest
      refine absurd ⟨rest, ?_⟩ hapart
      rw [hword, hrest.1, List.append_assoc]
      rfl

/-- **Words with an underscore before each can be told apart if none goes on with an underscore where another
one ends.** The induction is on the words: of the first ones, neither ends within the other. -/
theorem glued_inj {P : List Char → Prop} (hapart : ∀ w w', P w → P w' → ¬ (w ++ ['_'] <+: w')) :
    ∀ {ws ws' : List (List Char)}, (∀ w ∈ ws, P w) → (∀ w ∈ ws', P w) →
      ws.flatMap ('_' :: ·) = ws'.flatMap ('_' :: ·) → ws = ws'
  | [], [], _, _, _ => rfl
  | [], _ :: _, _, _, h => by simp at h
  | _ :: _, [], _, _, h => by simp at h
  | w :: ws, w' :: ws', hws, hws', h => by
    rw [List.forall_mem_cons] at hws hws'
    rw [List.flatMap_cons, List.flatMap_cons, List.cons_append, List.cons_append, List.cons.injEq] at h
    obtain ⟨rfl, hrest⟩ : w = w' ∧ ws.flatMap ('_' :: ·) = ws'.flatMap ('_' :: ·) := by
      rcases List.append_eq_append_iff.mp h.2 with ⟨rest, hword, hrest⟩ | ⟨rest, hword, hrest⟩
      · obtain rfl := glued_seam (hapart w w' hws.1 hws'.1) hword hrest
        exact ⟨by simpa using hword.symm, by simpa using hrest⟩
      · obtain rfl := glued_seam (hapart w' w hws'.1 hws.1) hword hrest
        exact ⟨by simpa using hword, by simpa using hrest.symm⟩
    rw [glued_inj hapart hws.2 hws'.2 hrest]

theorem toList_suffixOf_cons (n : Naming) (c : Category) (cs : List Category) :
    (suffixOf n (c :: cs)).toList =
      ((c :: cs).map fun c => (categoryToken n c).toList).flatMap ('_' :: ·) := by
  change (String.join ((c :: cs).map fun c => "_" ++ categoryToken n c)).toList = _
  rw [String.toList_join, List.flatMap_map, List.flatMap_map]
  simp [String.toList_append]

theorem suffixOf_constless (n : Naming) (cs : List Category) :
    suffixOf n (cs.map Category.constless) = suffixOf n cs := by
  cases cs with
  | nil => rfl
  | cons c cs =>
    simp only [suffixOf, List.map_cons, List.map_map, Function.comp_def, categoryToken_constless]

/-! ## Categories that can be told apart -/

/-- The words for parameters of these categories can be read back. -/
structure Legible (n : Naming) (cs : List Category) : Prop where
  /-- No parameter is `void`, which is the word for no parameters as well. -/
  filled : ∀ c ∈ cs, c.isVoid = false
  /-- No word goes on with an underscore where another one ends. -/
  apart : ∀ c ∈ cs, ∀ c' ∈ cs,
    ¬ (categoryToken n c).toList ++ ['_'] <+: (categoryToken n c').toList
  /-- Different structs and enums have different words, -/
  distinct : ∀ x ∈ cs.flatMap Category.names, ∀ y ∈ cs.flatMap Category.names,
    typeToken n x = typeToken n y → x = y
  /-- none looks like the word for a pointer to another one, -/
  pointed : ∀ x ∈ cs.flatMap Category.names, ∀ y ∈ cs.flatMap Category.names,
    typeToken n x ≠ "p" ++ typeToken n y
  /-- and none looks like a word for something else. -/
  own : ∀ x ∈ cs.flatMap Category.names,
    typeToken n x ∉ plainWords ∧ "p" ++ typeToken n x ∉ plainWords
  /-- The sizes of an array cannot be taken for the end of a word, such as the width of an integer. -/
  figures : ∀ c ∈ cs, c.isArray = true → ∀ c' ∈ cs,
    goesOnInFigures (leafToken n c) (leafToken n c') = false
  /-- Nor can the sizes be taken for others. -/
  sizes : ∀ c ∈ cs, ∀ c' ∈ cs, leafToken n c = leafToken n c' →
    figuresOf c.sizes = figuresOf c'.sizes → c.sizes = c'.sizes
  /-- All callbacks have one signature. -/
  signatures : ∀ c ∈ cs, ∀ c' ∈ cs, c.leaf.isCallback = true → c'.leaf.isCallback = true →
    c.leaf.constless = c'.leaf.constless

theorem leafToken_constless (n : Naming) (c : Category) : categoryToken n c.leaf.constless = leafToken n c :=
  categoryToken_constless n c.leaf

theorem leafToken_callback (h : c.leaf.isCallback = true) : leafToken n c = "fn" := by
  unfold leafToken
  cases hleaf : c.leaf with
  | callback => rfl
  | _ =>
    rw [hleaf] at h
    cases h

/-- A leaf of which the word is not plain is about a name. -/
theorem named_of_notMem (hmade : c.Made index) (hword : leafToken n c ∉ plainWords) :
    ∃ name ∈ c.leaf.names, ∃ pointer, c.leaf.constless = .named index name pointer := by
  obtain hleaf | hleaf | hleaf := hmade.leaf.leaf_cases c.isArray_leaf
  · rw [leafToken_callback hleaf] at hword
    exact absurd (by decide) hword
  · have hplain := mem_plainWords (n := n) hleaf
    rw [leafToken_constless] at hplain
    exact absurd hplain hword
  · exact hleaf

theorem mem_names_of_leaf {cs : List Category} (hc : c ∈ cs) {name : String} (hname : name ∈ c.leaf.names) :
    name ∈ cs.flatMap Category.names :=
  List.mem_flatMap.mpr ⟨c, hc, by rwa [← Category.names_leaf]⟩

namespace Legible

variable {cs : List Category} (h : Legible n cs)

include h

/-- What is about a name has a word of its own. -/
theorem named_notMem (hc : c ∈ cs) {name : String} (hname : name ∈ c.leaf.names) {pointer : Bool}
    (hleaf : c.leaf.constless = .named index name pointer) : leafToken n c ∉ plainWords := by
  have hplay := mem_names_of_leaf hc hname
  rw [← leafToken_constless, hleaf, categoryToken_named]
  cases pointer with
  | false => simpa using (h.own name hplay).1
  | true => exact (h.own name hplay).2

/-- One word for two leaves that are about names: it is one name. -/
theorem named_eq (hc : c ∈ cs) (hc' : c' ∈ cs) {name name' : String} (hname : name ∈ c.leaf.names)
    (hname' : name' ∈ c'.leaf.names) {pointer pointer' : Bool}
    (hleaf : c.leaf.constless = .named index name pointer)
    (hleaf' : c'.leaf.constless = .named index name' pointer')
    (heq : leafToken n c = leafToken n c') : c.leaf.constless = c'.leaf.constless := by
  have hplay := mem_names_of_leaf hc hname
  have hplay' := mem_names_of_leaf hc' hname'
  rw [← leafToken_constless, ← leafToken_constless, hleaf, hleaf', categoryToken_named,
    categoryToken_named] at heq
  rw [hleaf, hleaf']
  cases pointer <;> cases pointer' <;>
    simp only [Bool.false_eq_true, if_false, if_true, String.empty_append] at heq
  · rw [h.distinct name hplay name' hplay' heq]
  · exact absurd heq (h.pointed name hplay name' hplay')
  · exact absurd heq.symm (h.pointed name' hplay' name hplay)
  · rw [h.distinct name hplay name' hplay' (by simpa using heq)]

/-- A leaf of which the word is plain is a callback or plain itself. -/
theorem plain_cases (hc : c ∈ cs) (hmade : c.Made index) (hword : leafToken n c ∈ plainWords) :
    c.leaf.isCallback = true ∨ c.leaf.constless ∈ Category.plain := by
  obtain hleaf | hleaf | ⟨name, hname, pointer, hleaf⟩ := hmade.leaf.leaf_cases c.isArray_leaf
  · exact .inl hleaf
  · exact .inr hleaf
  · exact absurd hword (h.named_notMem hc hname hleaf)

/-- **Leaves with one word are the same up to `const`.** -/
theorem leaf_eq (hc : c ∈ cs) (hc' : c' ∈ cs) (hmade : c.Made index) (hmade' : c'.Made index)
    (heq : leafToken n c = leafToken n c') : c.leaf.constless = c'.leaf.constless := by
  by_cases hword : leafToken n c ∈ plainWords
  · have fn_ne {c c' : Category} (hfn : c.leaf.isCallback = true)
        (hplain : c'.leaf.constless ∈ Category.plain) : leafToken n c' ≠ leafToken n c := by
      rw [leafToken_callback hfn, ← leafToken_constless]
      exact plain_ne_fn hplain
    obtain hleaf | hleaf := h.plain_cases hc hmade hword
    · obtain hleaf' | hleaf' := h.plain_cases hc' hmade' (heq ▸ hword)
      · exact h.signatures c hc c' hc' hleaf hleaf'
      · exact absurd heq.symm (fn_ne hleaf hleaf')
    · obtain hleaf' | hleaf' := h.plain_cases hc' hmade' (heq ▸ hword)
      · exact absurd heq (fn_ne hleaf' hleaf)
      · exact plain_inj hleaf hleaf' (by rwa [leafToken_constless, leafToken_constless])
  · obtain ⟨name, hname, pointer, hleaf⟩ := named_of_notMem hmade hword
    obtain ⟨name', hname', pointer', hleaf'⟩ := named_of_notMem hmade' (heq ▸ hword)
    exact h.named_eq hc hc' hname hname' hleaf hleaf' heq

/-- Figures behind a word are the sizes of the array, from the first one on. -/
theorem figures_seam (hc : c ∈ cs) (hc' : c' ∈ cs) {rest : List Char}
    (hword : (leafToken n c').toList = (leafToken n c).toList ++ rest)
    (hrest : figuresOf c.sizes = rest ++ figuresOf c'.sizes) : rest = [] := by
  by_contra hne
  have harray : c.isArray = true := by
    by_contra hsingle
    rw [Category.sizes_of_single (by simpa using hsingle)] at hrest
    exact hne (List.append_eq_nil_iff.mp hrest.symm).1
  have hdigits : ∀ d ∈ rest, d.isDigit = true := fun d hd =>
    isDigit_of_mem_figuresOf (hrest ▸ List.mem_append_left _ hd)
  have hgoes := h.figures c hc harray c' hc'
  rw [goesOnInFigures_of_append hword hne hdigits] at hgoes
  cases hgoes

/-- **Categories with one word are the same up to `const`.** -/
theorem token_inj (hc : c ∈ cs) (hc' : c' ∈ cs) (hmade : c.Made index) (hmade' : c'.Made index)
    (heq : categoryToken n c = categoryToken n c') : c.constless = c'.constless := by
  have hsplit : (leafToken n c).toList ++ figuresOf c.sizes =
      (leafToken n c').toList ++ figuresOf c'.sizes := by
    rw [← toList_categoryToken, ← toList_categoryToken, heq]
  obtain ⟨hword, hfigures⟩ : leafToken n c = leafToken n c' ∧
      figuresOf c.sizes = figuresOf c'.sizes := by
    rcases List.append_eq_append_iff.mp hsplit with ⟨rest, hword, hrest⟩ | ⟨rest, hword, hrest⟩
    · obtain rfl := h.figures_seam hc hc' hword hrest
      exact ⟨String.toList_injective (by simpa using hword.symm), by simpa using hrest⟩
    · obtain rfl := h.figures_seam hc' hc hword hrest
      exact ⟨String.toList_injective (by simpa using hword), by simpa using hrest.symm⟩
  exact Category.constless_ext (h.leaf_eq hc hc' hmade hmade' hword) (h.sizes c hc c' hc' hword hfigures)

/-- No word is that for no parameters. -/
theorem token_ne_void (hc : c ∈ cs) (hmade : c.Made index) : categoryToken n c ≠ "void" := by
  intro heq
  have hsplit : "void".toList = (leafToken n c).toList ++ figuresOf c.sizes := by
    rw [← toList_categoryToken, heq]
  have hsingle : c.isArray = false := by
    rw [Bool.eq_false_iff]
    intro harray
    obtain ⟨front, d, hlast⟩ := (List.eq_nil_or_concat _).resolve_left (figuresOf_ne_nil harray)
    have hd : d.isDigit = true := isDigit_of_mem_figuresOf (by rw [hlast]; simp)
    rw [hlast, List.concat_eq_append, ← List.append_assoc] at hsplit
    have hend : 'd' = d := by simpa using congrArg List.getLast? hsplit
    rw [← hend] at hd
    cases hd
  rw [← Category.leaf_of_single hsingle] at heq
  obtain hleaf | hleaf := h.plain_cases hc hmade (by rw [leafToken, heq]; decide)
  · have hfn := leafToken_callback (n := n) hleaf
    rw [leafToken, heq] at hfn
    exact absurd hfn (by decide)
  · have hvoid : c.leaf.constless = .void :=
      plain_inj (n := n) hleaf (by simp [Category.plain]) (by rw [categoryToken_constless, heq]; rfl)
    rw [Category.leaf_of_single hsingle] at hvoid
    have hfilled := h.filled c hc
    cases c with
    | void => cases hfilled
    | _ => cases hvoid

/-- No parameters have a suffix of their own. -/
theorem suffixOf_ne_nil {c : Category} {rest : List Category} (hc : c ∈ cs) (hmade : c.Made index) :
    suffixOf n (c :: rest) ≠ suffixOf n [] := by
  intro heq
  have hvoid : (suffixOf n []).toList = '_' :: "void".toList := by
    change "_void".toList = _
    decide
  have hlist := toList_suffixOf_cons n c rest
  rw [heq, hvoid, List.map_cons, List.flatMap_cons, List.cons_append] at hlist
  have hwords := (List.cons.inj hlist).2
  cases rest with
  | nil => exact h.token_ne_void hc hmade (String.toList_injective (by simpa using hwords.symm))
  | cons c' rest =>
    have hmem : '_' ∈ "void".toList := by
      rw [hwords]
      simp
    exact absurd hmem (by decide)

end Legible

/-! ## Suffixes -/

/-- What tells elements of two lists apart tells the lists apart. -/
theorem map_eq_of_map_eq {α β γ : Type} {f : α → β} {g : α → γ} : ∀ {as as' : List α},
    (∀ a ∈ as, ∀ a' ∈ as', f a = f a' → g a = g a') → as.map f = as'.map f → as.map g = as'.map g
  | [], [], _, _ => rfl
  | [], _ :: _, _, h => by cases h
  | _ :: _, [], _, h => by cases h
  | a :: as, a' :: as', hfg, h => by
    rw [List.map_cons, List.map_cons, List.cons.injEq] at h
    rw [List.map_cons, List.map_cons, hfg a List.mem_cons_self a' List.mem_cons_self h.1]
    exact congrArg _ (map_eq_of_map_eq (fun b hb b' hb' =>
      hfg b (List.mem_cons_of_mem a hb) b' (List.mem_cons_of_mem a' hb')) h.2)

/-- Words in a row are the same only if the categories are up to `const`. -/
theorem Legible.constless_eq_of_glued {cs cs' : List Category} (hmade : ∀ c ∈ cs ++ cs', c.Made index)
    (h : Legible n (cs ++ cs'))
    (heq : (cs.map fun c => (categoryToken n c).toList).flatMap ('_' :: ·) =
      (cs'.map fun c => (categoryToken n c).toList).flatMap ('_' :: ·)) :
    cs.map Category.constless = cs'.map Category.constless := by
  have hapart : ∀ w w', (∃ c ∈ cs ++ cs', (categoryToken n c).toList = w) →
      (∃ c ∈ cs ++ cs', (categoryToken n c).toList = w') → ¬ (w ++ ['_'] <+: w') := by
    rintro _ _ ⟨c, hc, rfl⟩ ⟨c', hc', rfl⟩
    exact h.apart c hc c' hc'
  have hwords : cs.map (fun c => (categoryToken n c).toList) = cs'.map fun c => (categoryToken n c).toList := by
    refine glued_inj hapart ?_ ?_ heq
    · exact List.forall_mem_map.mpr fun c hc => ⟨c, List.mem_append_left _ hc, rfl⟩
    · exact List.forall_mem_map.mpr fun c hc => ⟨c, List.mem_append_right _ hc, rfl⟩
  refine map_eq_of_map_eq (fun c hc c' hc' hword => ?_) hwords
  have hplay := List.mem_append_left cs' hc
  have hplay' := List.mem_append_right cs hc'
  exact h.token_inj hplay hplay' (hmade c hplay) (hmade c' hplay') (String.toList_injective hword)

/-- **Suffixes are the same exactly if the categories are up to `const`.** -/
theorem suffixOf_eq_iff {cs cs' : List Category} (hmade : ∀ c ∈ cs ++ cs', c.Made index)
    (h : Legible n (cs ++ cs')) :
    suffixOf n cs = suffixOf n cs' ↔ cs.map Category.constless = cs'.map Category.constless := by
  constructor
  · intro heq
    cases cs with
    | nil =>
      cases cs' with
      | nil => rfl
      | cons c' rest' => exact absurd heq.symm (h.suffixOf_ne_nil (by simp) (hmade c' (by simp)))
    | cons c rest =>
      cases cs' with
      | nil => exact absurd heq (h.suffixOf_ne_nil (by simp) (hmade c (by simp)))
      | cons c' rest' =>
        refine h.constless_eq_of_glued hmade ?_
        rw [← toList_suffixOf_cons, ← toList_suffixOf_cons, heq]
  · intro heq
    rw [← suffixOf_constless n cs, heq, suffixOf_constless]

/-- The categories of a function's parameters, by what the memo knows. -/
def FunctionDecl.categories (ctx : Context) (f : FunctionDecl) (m : Memo) : List Category :=
  ((f.params.mapM fun p => ctx.classify p.type).run m).1

theorem overloadSuffix_run (ctx : Context) (f : FunctionDecl) (m : Memo) :
    ((overloadSuffix ctx f).run m).1 = suffixOf ctx.naming (f.categories ctx m) := rfl

theorem FunctionDecl.categories_made {ctx : Context} {m : Memo} (f : FunctionDecl)
    (hm : m.All (Category.Made ctx.index)) : ∀ c ∈ f.categories ctx m, c.Made ctx.index :=
  (Classifying.Keeps.mapM (fun _ _ => (Category.closed_made ctx.index).classify_keeps _) m hm).1

section

variable {ctx : Context} {m m' : Memo} {f g : FunctionDecl}

/-- **Overloads have one suffix exactly if their parameters have the same categories up to `const`**, as long
as the words for these can be read back. What the memos hold may be anything that the classifier makes. -/
theorem overloadSuffix_eq_iff (hm : m.All (Category.Made ctx.index)) (hm' : m'.All (Category.Made ctx.index))
    (h : Legible ctx.naming (f.categories ctx m ++ g.categories ctx m')) :
    ((overloadSuffix ctx f).run m).1 = ((overloadSuffix ctx g).run m').1 ↔
      (f.categories ctx m).map Category.constless = (g.categories ctx m').map Category.constless := by
  have hmade : ∀ c ∈ f.categories ctx m ++ g.categories ctx m', c.Made ctx.index := by
    intro c hc
    rcases List.mem_append.mp hc with hc | hc
    · exact f.categories_made hm c hc
    · exact g.categories_made hm' c hc
  rw [overloadSuffix_run, overloadSuffix_run]
  exact suffixOf_eq_iff hmade h

end

/-! ## Some overloads -/

/-- A library that depends on a few types, some of which scripts would call the same. -/
def vectorContext : Context :=
  Classifying.fresh (Context.build
    { stem := some "demo_"
      dependencies := [.struct "demo_vec2", .struct "Vec2", .struct "Pvec2", .struct "demo_str",
        .struct "demo_mode_float", .enum "demo_mode"] } {})

/-- A function with parameters of these types. -/
def drawFunction (types : List String) : FunctionDecl where
  name := "demo_draw"
  type := "void (" ++ ", ".intercalate types ++ ")"
  returnType := "void"
  params := types.map fun type => ⟨"x", type, false, false, false⟩
  variadic := false

/-- A struct and an integer, and a pointer to the struct and an array. -/
def drawValue : FunctionDecl := drawFunction ["demo_vec2", "uint8_t"]

def drawPointer : FunctionDecl := drawFunction ["demo_vec2 *", "float[4]"]

theorem overloadSuffix_draw :
    Classifying.fresh (overloadSuffix vectorContext drawValue) ≠
      Classifying.fresh (overloadSuffix vectorContext drawPointer) := by
  have hcallbacks : ∀ c ∈ drawValue.categories vectorContext {} ++ drawPointer.categories vectorContext {},
      c.leaf.isCallback = false := by decide +kernel
  have hlegible : Legible vectorContext.naming
      (drawValue.categories vectorContext {} ++ drawPointer.categories vectorContext {}) :=
    { filled := by decide +kernel
      apart := by decide +kernel
      distinct := by decide +kernel
      pointed := by decide +kernel
      own := by decide +kernel
      figures := by decide +kernel
      sizes := by decide +kernel
      signatures := fun c hc _ _ hcallback _ => by
        rw [hcallbacks c hc] at hcallback
        cases hcallback }
  intro heq
  have hsame := (overloadSuffix_eq_iff Memo.all_empty Memo.all_empty hlegible).mp heq
  exact absurd (congrArg (List.map Category.describe) hsame) (by decide +kernel)

/-- No parameter and one that is `void`; a name of two words; two structs that scripts call the same; a struct
called as a pointer to another one is, and one called as text is; the width of an integer and the size of an
array; the sizes of two arrays; two signatures. -/
def confusedTypes : List (List String × List String) :=
  [([], ["void"]), (["demo_mode_float"], ["demo_mode", "float"]), (["demo_vec2"], ["Vec2"]),
    (["Pvec2"], ["Vec2 *"]), (["demo_str"], ["const char *"]), (["int8_t"], ["int[8]"]),
    (["float[2][3]"], ["float[32]"]), (["void (*)(int)"], ["int (*)(float)"])]

/-- Overloads of one suffix with different parameters. -/
theorem suffixes_confused : ∀ types ∈ confusedTypes,
    ((drawFunction types.1).categories vectorContext {}).map Category.constless ≠
        ((drawFunction types.2).categories vectorContext {}).map Category.constless ∧
      Classifying.fresh (overloadSuffix vectorContext (drawFunction types.1)) =
        Classifying.fresh (overloadSuffix vectorContext (drawFunction types.2)) := by
  have hdescribe : ∀ types ∈ confusedTypes,
      (((drawFunction types.1).categories vectorContext {}).map Category.constless).map Category.describe ≠
        (((drawFunction types.2).categories vectorContext {}).map Category.constless).map
          Category.describe := by decide +kernel
  have hsuffix : ∀ types ∈ confusedTypes,
      Classifying.fresh (overloadSuffix vectorContext (drawFunction types.1)) =
        Classifying.fresh (overloadSuffix vectorContext (drawFunction types.2)) := by decide +kernel
  exact fun types htypes =>
    ⟨fun hsame => hdescribe types htypes (congrArg _ hsame), hsuffix types htypes⟩

/-- Parameters of different categories may have one suffix: one integer of eight bits and eight integers do. -/
theorem overloadSuffix_shared :
    ¬ ∀ (ctx : Context) (f g : FunctionDecl),
      (f.categories ctx {}).map Category.constless ≠ (g.categories ctx {}).map Category.constless →
        Classifying.fresh (overloadSuffix ctx f) ≠ Classifying.fresh (overloadSuffix ctx g) := by
  intro h
  obtain ⟨hdiffers, hsuffix⟩ := suffixes_confused (["int8_t"], ["int[8]"]) (by simp [confusedTypes])
  exact h _ _ _ hdiffers hsuffix

end LuaGlue
