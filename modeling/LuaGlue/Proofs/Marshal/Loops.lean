import LuaGlue.Proofs.Classifier.Arrays
import LuaGlue.Proofs.Classifier.Elements
import LuaGlue.Proofs.Marshal.Locals
import LuaGlue.Proofs.Marshal.Parts

/-!
# Loops over arrays

An array is marshaled by loops that stand one in another, one for each of its dimensions, and what is inside of
the innermost loop marshals one element (`Looped`). Three things have to go together there: the loop's bound
comes from the category that the memo has for the dimensions that are left, the recursion goes by their
spelling, and the element is the place that the loop is about with the loop's counter behind it.

They do because the memo knows as much of what is inside of an array as of the array
(`Memo.Arises.array`), so that a dimension is never skipped and none is left when the element is reached. Pushing
and reading differ in how a loop is written (`ElementLoop`), and reading treats the outermost one in its own
way; the argument is the same (`ElementLoop.Steps.looped`).
-/

set_option autoImplicit false

namespace LuaGlue

/-! ## Loops -/

/-- How a loop over the elements of an array is written around what is done with one of them. -/
structure ElementLoop where
  /-- How many temporaries are taken before the counter. -/
  before : Nat
  /-- The loop that takes temporaries from number `n` on, over an array with `size` elements. -/
  around (n size : Nat) (inside : Code) : Code
  /-- The loop declares the temporaries that it takes. -/
  declared_around (n size : Nat) (inside : Code) :
    (around n size inside).declared = temporaries n (before + 1) ++ inside.declared

namespace ElementLoop

/-- Pushes a table, into which each element goes that is pushed inside. -/
def push : ElementLoop where
  before := 0
  around n size inside := arrayCode (temporary n) size inside
  declared_around n size inside := declared_arrayCode (temporary n) size inside

/-- Goes through a table, of which each entry that is not `nil` is read inside. -/
def read (mode : ReadMode) (index : StackIndex) : ElementLoop where
  before := 1
  around n size inside :=
    tableCode mode (temporary n) index (elementsCode (temporary n) (temporary (n + 1)) size inside)
  declared_around n size inside := by
    rw [declared_tableCode, declared_elementsCode]
    rfl

/-- The counter of a loop that takes temporaries from number `n` on. -/
def counter (l : ElementLoop) (n : Nat) : String := temporary (n + l.before)

/-- The first number that is left for what is inside. -/
def next (l : ElementLoop) (n : Nat) : Nat := n + (l.before + 1)

/-- Loops one in another, the outermost one for the first size and written in its own way. -/
def nest (outer l : ElementLoop) : Nat → List Nat → Code → Code
  | _, [], inside => inside
  | n, size :: sizes, inside => outer.around n size (l.nest l (l.next n) sizes inside)

/-- The counters of `k` loops one in another, the outermost one first. -/
def counters (l : ElementLoop) (n k : Nat) : List String :=
  (List.range' (n + l.before) k (l.before + 1)).map temporary

theorem counters_succ (l : ElementLoop) (n k : Nat) :
    l.counters n (k + 1) = l.counter n :: l.counters (l.next n) k := by
  have hnext : n + l.before + (l.before + 1) = l.next n + l.before := by
    unfold next
    omega
  rw [counters, List.range'_succ, List.map_cons, hnext]
  rfl

/-- Each loop declares its own counter. -/
theorem counters_sublist {outer l : ElementLoop} (h : outer.before = l.before) {n : Nat} {sizes : List Nat}
    {inside : Code} : (l.counters n sizes.length).Sublist (outer.nest l n sizes inside).declared := by
  induction sizes generalizing outer n with
  | nil => exact List.nil_sublist _
  | cons size sizes ih =>
    rw [List.length_cons, counters_succ, nest, declared_around, temporaries_add, h, List.append_assoc]
    refine List.sublist_append_of_sublist_right ?_
    exact (ih rfl).cons_cons _

end ElementLoop

/-- The element that some indices lead to, one dimension after the other. -/
def Place.elements (p : Place) (indices : List String) : Place := indices.foldl .element p

/-- The type of what is in an array when all dimensions are taken off. -/
def NamedType.scalar (t : NamedType) : NamedType := { t with dims := [] }

/-! ## One dimension -/

section

variable {ctx : Context} {spelling : String} {t : NamedType} {d : Option Nat} {inner : List (Option Nat)}
  {place : Place} {s s' : Scratch} {m : Memo} {u : Unit} {code : Code} {elem : Category} {size : Nat}

theorem arrayRank_of_parse (hparse : CType.parse spelling = .named t) : arrayRank spelling = t.dims.length := by
  rw [arrayRank, hparse]

/-- What goes by a category whose answer is known goes by that answer. -/
theorem categoryOf_bind_written {c : Category} {f : Category → Draft Unit}
    (hc : (classify ctx.index spelling).run s.memo = (c, m))
    (h : (ctx.categoryOf spelling >>= f) s = (.written u code, s')) :
    f c ⟨m, s.temporaries⟩ = (.written u code, s') := by
  obtain ⟨_, _, _, _, hasked, hrest, rfl⟩ := Draft.bind_written.mp h
  obtain ⟨rfl, rfl, rfl⟩ := Draft.asking_written.mp hasked
  rwa [show (ctx.classify spelling).run s.memo = _ from hc] at hrest

/-- To push an array is to push its elements in a loop. -/
theorem push_array_step (hparse : CType.parse spelling = .named t) (hdims : t.dims = d :: inner)
    (hc : (classify ctx.index spelling).run s.memo = (.fixedArray elem size, m))
    (h : push ctx spelling place s = (.written u code, s')) :
    ∃ inside, push ctx { t with dims := inner }.render (.element place (temporary s.temporaries))
          ⟨m, s.temporaries + 1⟩ = (.written u inside, s') ∧
      code = ElementLoop.push.around s.temporaries size inside := by
  have hread := NamedType.parse_render ((CType.wellFormed_of_parse hparse).inner hdims)
  unfold push at h ⊢
  rw [arrayRank_of_parse hparse, hdims, List.length_cons] at h
  rw [arrayRank_of_parse hread]
  unfold pushWith at h
  have htemplate := categoryOf_bind_written hc h
  dsimp only at htemplate
  rw [elementType?_of_dims hparse hdims] at htemplate
  have hrest := Draft.temp_bind_written.mp htemplate
  obtain ⟨_, hloop, rfl⟩ := Draft.line_bind_written.mp hrest
  obtain ⟨_, hbody, rfl⟩ := Draft.block_written.mp hloop
  obtain ⟨_, inside, _, _, hin, hstore, rfl⟩ := Draft.bind_written.mp hbody
  obtain ⟨rfl, rfl⟩ := Draft.line_written.mp hstore
  exact ⟨inside, hin, rfl⟩

/-- To read an array is to read its elements in a loop. -/
theorem read_array_step {mode : ReadMode} {index : StackIndex} (hparse : CType.parse spelling = .named t)
    (hdims : t.dims = d :: inner)
    (hc : (classify ctx.index spelling).run s.memo = (.fixedArray elem size, m))
    (h : read ctx mode spelling place index s = (.written u code, s')) :
    ∃ inside, read ctx .lenient { t with dims := inner }.render
          (.element place (temporary (s.temporaries + 1))) .top ⟨m, s.temporaries + 2⟩ =
        (.written u inside, s') ∧
      code = (ElementLoop.read mode index).around s.temporaries size inside := by
  have hread := NamedType.parse_render ((CType.wellFormed_of_parse hparse).inner hdims)
  unfold read at h ⊢
  rw [arrayRank_of_parse hparse, hdims, List.length_cons] at h
  rw [arrayRank_of_parse hread]
  unfold readWith at h
  have htemplate := categoryOf_bind_written hc h
  dsimp only at htemplate
  rw [elementType?_of_dims hparse hdims] at htemplate
  have htable := Draft.temp_bind_written.mp (Draft.temp_bind_written.mp htemplate)
  obtain ⟨_, hloop, rfl⟩ := readTable_written htable
  obtain ⟨_, hbody, rfl⟩ := Draft.block_written.mp hloop
  obtain ⟨_, hentry, rfl⟩ := Draft.line_bind_written.mp hbody
  obtain ⟨_, _, _, _, hbranch, hpop, rfl⟩ := Draft.bind_written.mp hentry
  obtain ⟨rfl, rfl⟩ := Draft.line_written.mp hpop
  obtain ⟨inside, hin, rfl⟩ := Draft.branch_written.mp hbranch
  exact ⟨inside, hin, rfl⟩

/-- What shows no dimension has no element. -/
theorem elementType?_of_scalar (hparse : CType.parse spelling = .named t) (hdims : t.dims = []) :
    elementType? spelling = none := by
  unfold elementType?
  rw [hparse]
  dsimp only
  rw [NamedType.element?, hdims]
  rfl

/-- An array that an alias hides is not pushed. -/
theorem push_hidden_array (hparse : CType.parse spelling = .named t) (hdims : t.dims = [])
    (hc : (classify ctx.index spelling).run s.memo = (.fixedArray elem size, m)) :
    ¬ push ctx spelling place s = (.written u code, s') := by
  intro h
  unfold push at h
  rw [arrayRank_of_parse hparse, hdims, List.length_nil] at h
  unfold pushWith at h
  exact Draft.fail_written (categoryOf_bind_written hc h)

theorem read_hidden_array {mode : ReadMode} {index : StackIndex} (hparse : CType.parse spelling = .named t)
    (hdims : t.dims = []) (hc : (classify ctx.index spelling).run s.memo = (.fixedArray elem size, m)) :
    ¬ read ctx mode spelling place index s = (.written u code, s') := by
  intro h
  unfold read at h
  rw [arrayRank_of_parse hparse, hdims, List.length_nil] at h
  unfold readWith at h
  exact Draft.fail_written (categoryOf_bind_written hc h)

end

/-! ## All dimensions -/

/-- A way to marshal values, by their spelling and where they are, that goes through arrays by loops and does not
go through arrays that an alias hides. -/
structure ElementLoop.Steps (l : ElementLoop) (ctx : Context) (marshal : String → Place → Draft Unit) :
    Prop where
  step : ∀ {spelling : String} {t : NamedType} {d : Option Nat} {inner : List (Option Nat)} {place : Place}
    {s s' : Scratch} {m : Memo} {code : Code} {elem : Category} {size : Nat},
    CType.parse spelling = .named t → t.dims = d :: inner →
      (classify ctx.index spelling).run s.memo = (.fixedArray elem size, m) →
      marshal spelling place s = (.written () code, s') →
      ∃ inside, marshal { t with dims := inner }.render (.element place (l.counter s.temporaries))
          ⟨m, l.next s.temporaries⟩ = (.written () inside, s') ∧
        code = l.around s.temporaries size inside
  hidden : ∀ {spelling : String} {t : NamedType} {place : Place} {s s' : Scratch} {m : Memo} {code : Code}
    {elem : Category} {size : Nat}, CType.parse spelling = .named t → t.dims = [] →
      (classify ctx.index spelling).run s.memo = (.fixedArray elem size, m) →
      ¬ marshal spelling place s = (.written () code, s')

theorem push_steps (ctx : Context) : ElementLoop.push.Steps ctx (push ctx) where
  step := push_array_step
  hidden := push_hidden_array

theorem read_steps (ctx : Context) : (ElementLoop.read .lenient .top).Steps ctx
    fun spelling place => read ctx .lenient spelling place .top where
  step := read_array_step
  hidden := read_hidden_array

/-- The code goes through an array of the type `t` by loops one in another, one for each dimension from the
outermost inwards, and what is inside of them marshals the element of `place` that their counters lead to,
which is no array. -/
structure Looped (outer l : ElementLoop) (t : NamedType) (place : Place) (marshal : String → Place → Draft Unit)
    (s : Scratch) (code : Code) (s' : Scratch) (sizes : List Nat) (inside : Code) (s₁ : Scratch) : Prop where
  dims : t.dims = sizes.map some
  positive : ∀ size ∈ sizes, 0 < size
  loops : code = outer.nest l s.temporaries sizes inside
  element : marshal t.scalar.render (place.elements (l.counters s.temporaries sizes.length)) s₁ =
    (.written () inside, s')
  later : s₁.temporaries = s.temporaries + sizes.length * (l.before + 1)
  scalar : ∃ c, s₁.memo.find? t.scalar.render = some c ∧ c.isElement = true ∧ c.isArray = false

section

variable {outer l : ElementLoop} {ctx : Context} {marshal : String → Place → Draft Unit} {t : NamedType}
  {d : Option Nat} {inner : List (Option Nat)} {place : Place} {s s' : Scratch} {m : Memo} {code : Code}

/-- A loop around loops. -/
theorem Looped.cons {size : Nat} {sizes : List Nat} {body inside : Code} {s₁ : Scratch}
    (h : Looped l l { t with dims := inner } (.element place (l.counter s.temporaries)) marshal
      ⟨m, l.next s.temporaries⟩ body s' sizes inside s₁)
    (hdims : t.dims = some size :: inner) (hsize : 0 < size) :
    Looped outer l t place marshal s (outer.around s.temporaries size body) s' (size :: sizes) inside s₁ where
  dims := by rw [hdims, List.map_cons, ← h.dims]
  positive := List.forall_mem_cons.mpr ⟨hsize, h.positive⟩
  loops := by
    rw [h.loops]
    rfl
  element := by
    rw [List.length_cons, l.counters_succ]
    exact h.element
  later := by
    rw [h.later, List.length_cons, ElementLoop.next]
    simp only [Nat.add_mul, Nat.one_mul]
    omega
  scalar := h.scalar

/-- **Where the memo knows of an array, each of its dimensions has a loop.** The induction is on the
dimensions; when none is left, the category cannot be that of an array. -/
theorem ElementLoop.Steps.looped (hsteps : l.Steps ctx marshal) :
    ∀ {dims : List (Option Nat)} {t : NamedType} {place : Place} {s : Scratch} {code : Code} {c : Category},
      marshal t.render place s = (.written () code, s') → t.WellFormed → t.dims = dims →
      s.memo.Arises ctx.index → s.memo.find? t.render = some c → c.isElement = true →
      ∃ sizes inside s₁, Looped l l t place marshal s code s' sizes inside s₁ := by
  intro dims
  induction dims with
  | nil =>
    intro t place s code c h ht hdims _ hc helem
    have hscalar : t.scalar = t := by rw [NamedType.scalar, ← hdims]
    refine ⟨[], code, s, ⟨hdims, by simp, rfl, by rwa [hscalar], by simp, c, by rwa [hscalar], helem, ?_⟩⟩
    refine Bool.of_not_eq_true fun harray => ?_
    cases c <;> cases harray
    exact hsteps.hidden (NamedType.parse_render ht) hdims (classify_known hc) h
  | cons d inner ih =>
    intro t place s code c h ht hdims hmemo hc helem
    obtain ⟨elem, size, rfl, rfl, hsize, e, he, helem⟩ :=
      hmemo.array (NamedType.parse_render ht) hdims hc helem
    obtain ⟨body, hbody, rfl⟩ := hsteps.step (NamedType.parse_render ht) hdims (classify_known hc) h
    obtain ⟨sizes, inside, s₁, hlooped⟩ := ih hbody (ht.inner hdims) rfl hmemo he helem
    exact ⟨_, inside, s₁, hlooped.cons hdims hsize⟩

/-- The same for any spelling of an array, of which nothing need be known beforehand, and for an outermost loop
that is written in its own way. -/
theorem ElementLoop.Steps.looped_outer (hsteps : l.Steps ctx marshal) {spelling : String} {elem : Category}
    {size : Nat} {body : Code} (hparse : CType.parse spelling = .named t) (hdims : t.dims = d :: inner)
    (hmemo : s.memo.Arises ctx.index)
    (hc : (classify ctx.index spelling).run s.memo = (.fixedArray elem size, m))
    (h : marshal { t with dims := inner }.render (.element place (l.counter s.temporaries))
      ⟨m, l.next s.temporaries⟩ = (.written () body, s')) :
    ∃ sizes inside s₁, Looped outer l t place marshal s (outer.around s.temporaries size body) s'
      sizes inside s₁ := by
  have hmemo' : m.Arises ctx.index := by
    have hask := hmemo.ask spelling
    rwa [hc] at hask
  obtain ⟨_, _, heq, rfl, hsize, e, he, helem⟩ := hmemo'.array hparse hdims (classify_answered hc) rfl
  cases heq
  obtain ⟨sizes, inside, s₁, hlooped⟩ :=
    hsteps.looped h ((CType.wellFormed_of_parse hparse).inner hdims) rfl hmemo' he helem
  exact ⟨_, inside, s₁, hlooped.cons hdims hsize⟩

end

section

variable {ctx : Context} {spelling : String} {t : NamedType} {place : Place} {s s' : Scratch} {code : Code}

/-- **An array is pushed in loops over all of its dimensions.** -/
theorem push_looped (hparse : CType.parse spelling = .named t) (hmemo : s.memo.Arises ctx.index)
    (hc : ((classify ctx.index spelling).run s.memo).1.isArray = true)
    (h : push ctx spelling place s = (.written () code, s')) :
    t.dims ≠ [] ∧ ∃ sizes inside s₁, Looped .push .push t place (push ctx) s code s' sizes inside s₁ := by
  cases hrun : (classify ctx.index spelling).run s.memo with | mk c m =>
  rw [hrun] at hc
  cases c <;> cases hc
  cases hdims : t.dims with
  | nil => exact absurd h (push_hidden_array hparse hdims hrun)
  | cons d inner =>
    obtain ⟨body, hbody, rfl⟩ := push_array_step hparse hdims hrun h
    exact ⟨by simp, (push_steps ctx).looped_outer hparse hdims hmemo hrun hbody⟩

/-- An array is read in loops over all of its dimensions. -/
theorem read_looped {mode : ReadMode} {index : StackIndex} (hparse : CType.parse spelling = .named t)
    (hmemo : s.memo.Arises ctx.index)
    (hc : ((classify ctx.index spelling).run s.memo).1.isArray = true)
    (h : read ctx mode spelling place index s = (.written () code, s')) :
    t.dims ≠ [] ∧ ∃ sizes inside s₁, Looped (.read mode index) (.read .lenient .top) t place
      (fun spelling place => read ctx .lenient spelling place .top) s code s' sizes inside s₁ := by
  cases hrun : (classify ctx.index spelling).run s.memo with | mk c m =>
  rw [hrun] at hc
  cases c <;> cases hc
  cases hdims : t.dims with
  | nil => exact absurd h (read_hidden_array hparse hdims hrun)
  | cons d inner =>
    obtain ⟨body, hbody, rfl⟩ := read_array_step hparse hdims hrun h
    exact ⟨by simp, (read_steps ctx).looped_outer hparse hdims hmemo hrun hbody⟩

end

end LuaGlue
