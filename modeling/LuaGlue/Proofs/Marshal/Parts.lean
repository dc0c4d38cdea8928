import LuaGlue.Proofs.CType.RoundTrip
import LuaGlue.Proofs.Classifier.Leaves
import LuaGlue.Proofs.Marshal.PushCode
import LuaGlue.Proofs.Marshal.ReadCode

/-!
# The parts of a type

A value is marshaled part by part: an array by its elements, a tuple by its members, and — when it is
pushed — a pointer to a tuple by the members of what it points to. `PartOf ctx m action k spelling
part` says that `part` is reached in this way, by the categories in the memo `m`, and that `k` tuples
have been gone into on the way.

The generator goes by the spelling where this goes by the category, and nothing keeps the two in step:
the category may see an array behind an alias whose name shows no dimension. So an array has elements
here exactly where the generator finds some.
-/

set_option autoImplicit false

namespace LuaGlue

/-- The tuple whose members stand for a value when it is marshaled. Pushing follows a pointer to a
tuple; reading does not. -/
def Category.tuple? (action : Action) : Category → Option String
  | .structValue name .tuple => some name
  | .structPointer name .tuple _ => if action = .push then some name else none
  | _ => none

theorem Category.tuple?_of_isArray {action : Action} {c : Category} (h : c.isArray = true) :
    c.tuple? action = none := by
  cases c <;> first | rfl | cases h

theorem Category.tuple?_structValue {action : Action} {name : String} {shape : Shape}
    (h : shape ≠ .tuple) : Category.tuple? action (.structValue name shape) = none := by
  cases shape <;> first | rfl | exact absurd rfl h

theorem Category.tuple?_structPointer {action : Action} {name : String} {shape : Shape}
    {isConst : Bool} (h : shape ≠ .tuple) :
    Category.tuple? action (.structPointer name shape isConst) = none := by
  cases shape <;> first | rfl | exact absurd rfl h

/-- What is read by one line has no parts. -/
theorem readLine?_leaf {ctx : Context} {mode : ReadMode} {spelling : String} {place : Place}
    {index : StackIndex} {c : Category} {l : Line}
    (hl : readLine? ctx mode spelling place index c = some l) :
    c.isArray = false ∧ c.tuple? .read = none := by
  cases c with
  | structPointer name shape isConst => cases shape <;> exact ⟨rfl, rfl⟩
  | void | structValue name shape | fixedArray elem size => cases hl
  | _ => exact ⟨rfl, rfl⟩

/-- What is pushed without a temporary has no parts. -/
theorem pushLines?_leaf {spelling : String} {source : Place} {c : Category} {ls : List Line}
    (hl : pushLines? spelling source c = some ls) :
    c.isArray = false ∧ c.tuple? .push = none := by
  cases c <;> first | exact ⟨rfl, rfl⟩ | cases hl

/-- By the categories in the memo, `part` is a part of what is so spelled, `k` tuples inside. -/
inductive PartOf (ctx : Context) (m : Memo) (action : Action) : Nat → String → String → Prop where
  | self {spelling} : PartOf ctx m action 0 spelling spelling
  | element {spelling c elem part k} (hc : m.find? spelling = some c) (ha : c.isArray = true)
      (he : elementType? spelling = some elem) (inside : PartOf ctx m action k elem part) :
      PartOf ctx m action k spelling part
  | member {spelling c name members member part k} (hc : m.find? spelling = some c)
      (ht : c.tuple? action = some name) (hm : ctx.tupleMembers name = .ok members)
      (hmem : member ∈ members) (inside : PartOf ctx m action k member.type part) :
      PartOf ctx m action (k + 1) spelling part

namespace PartOf

variable {ctx : Context} {m : Memo} {action : Action} {k : Nat} {spelling part : String}

/-- A value without parts is its only part. -/
theorem leaf_iff {c : Category} (hc : m.find? spelling = some c) (ha : c.isArray = false)
    (ht : c.tuple? action = none) :
    PartOf ctx m action k spelling part ↔ k = 0 ∧ part = spelling := by
  constructor
  · intro h
    cases h with
    | self => exact ⟨rfl, rfl⟩
    | element hc' ha' _ _ =>
      rw [hc] at hc'
      cases hc'
      rw [ha] at ha'
      cases ha'
    | member hc' ht' _ _ _ =>
      rw [hc] at hc'
      cases hc'
      rw [ht] at ht'
      cases ht'
  · rintro ⟨rfl, rfl⟩
    exact .self

/-- The parts of an array are the array and the parts of its elements. -/
theorem array_iff {c : Category} (hc : m.find? spelling = some c) (ha : c.isArray = true) :
    PartOf ctx m action k spelling part ↔ (k = 0 ∧ part = spelling) ∨
      ∃ elem, elementType? spelling = some elem ∧ PartOf ctx m action k elem part := by
  constructor
  · intro h
    cases h with
    | self => exact .inl ⟨rfl, rfl⟩
    | element _ _ he inside => exact .inr ⟨_, he, inside⟩
    | member hc' ht _ _ _ =>
      rw [hc] at hc'
      cases hc'
      rw [Category.tuple?_of_isArray ha] at ht
      cases ht
  · rintro (⟨rfl, rfl⟩ | ⟨elem, he, inside⟩)
    · exact .self
    · exact .element hc ha he inside

/-- The parts of a tuple are the tuple and the parts of its members, one tuple further in. -/
theorem tuple_iff {c : Category} {name : String} (hc : m.find? spelling = some c)
    (ht : c.tuple? action = some name) :
    PartOf ctx m action k spelling part ↔ (k = 0 ∧ part = spelling) ∨
      ∃ members, ctx.tupleMembers name = .ok members ∧ ∃ member ∈ members, ∃ j, k = j + 1 ∧
        PartOf ctx m action j member.type part := by
  constructor
  · intro h
    cases h with
    | self => exact .inl ⟨rfl, rfl⟩
    | element hc' ha _ _ =>
      rw [hc] at hc'
      cases hc'
      rw [Category.tuple?_of_isArray ha] at ht
      cases ht
    | member hc' ht' hm hmem inside =>
      rw [hc] at hc'
      cases hc'
      rw [ht] at ht'
      cases ht'
      exact .inr ⟨_, hm, _, hmem, _, rfl, inside⟩
  · rintro (⟨rfl, rfl⟩ | ⟨members, hm, member, hmem, j, rfl, inside⟩)
    · exact .self
    · exact .member hc ht hm hmem inside

end PartOf

/-! ## Parts of a kind -/

/-- By the categories in the memo, some part of what is so spelled has a category of the kind. -/
def HasPart (kind : Category → Bool) (ctx : Context) (m : Memo) (action : Action) (spelling : String) :
    Prop :=
  ∃ k part c, PartOf ctx m action k spelling part ∧ m.find? part = some c ∧ kind c = true

namespace HasPart

variable {kind : Category → Bool} {ctx : Context} {m : Memo} {action : Action} {spelling : String}
  {c : Category}

/-- A value without parts has to be of the kind itself. -/
theorem leaf_iff (hc : m.find? spelling = some c) (ha : c.isArray = false)
    (ht : c.tuple? action = none) : HasPart kind ctx m action spelling ↔ kind c = true := by
  constructor
  · rintro ⟨k, part, c', hpart, hc', hkind⟩
    obtain ⟨-, rfl⟩ := (PartOf.leaf_iff hc ha ht).mp hpart
    rw [hc] at hc'
    cases hc'
    exact hkind
  · exact fun hkind => ⟨0, spelling, c, .self, hc, hkind⟩

/-- An array has what its elements have, if it is not of the kind itself. -/
theorem array_iff {elem : String} (hc : m.find? spelling = some c) (ha : c.isArray = true)
    (hkind : kind c = false) (he : elementType? spelling = some elem) :
    HasPart kind ctx m action spelling ↔ HasPart kind ctx m action elem := by
  constructor
  · rintro ⟨k, part, c', hpart, hc', hk⟩
    rcases (PartOf.array_iff hc ha).mp hpart with ⟨-, rfl⟩ | ⟨elem', he', inside⟩
    · rw [hc] at hc'
      cases hc'
      rw [hkind] at hk
      cases hk
    · rw [he] at he'
      cases he'
      exact ⟨k, part, c', inside, hc', hk⟩
  · rintro ⟨k, part, c', inside, hc', hk⟩
    exact ⟨k, part, c', .element hc ha he inside, hc', hk⟩

/-- A tuple has what its members have, if it is not of the kind itself. -/
theorem tuple_iff {name : String} {members : List TupleMember} (hc : m.find? spelling = some c)
    (ht : c.tuple? action = some name) (hkind : kind c = false)
    (hm : ctx.tupleMembers name = .ok members) :
    HasPart kind ctx m action spelling ↔
      ∃ member ∈ members, HasPart kind ctx m action member.type := by
  constructor
  · rintro ⟨k, part, c', hpart, hc', hk⟩
    rcases (PartOf.tuple_iff hc ht).mp hpart with
      ⟨-, rfl⟩ | ⟨members', hm', member, hmem, j, -, inside⟩
    · rw [hc] at hc'
      cases hc'
      rw [hkind] at hk
      cases hk
    · rw [hm] at hm'
      cases hm'
      exact ⟨member, hmem, j, part, c', inside, hc', hk⟩
  · rintro ⟨member, hmem, k, part, c', inside, hc', hk⟩
    exact ⟨k + 1, part, c', .member hc ht hm hmem inside, hc', hk⟩

end HasPart

/-! ## Classified throughout -/

/-- Every part of what is so spelled has its category in the memo. -/
def Classified (ctx : Context) (m : Memo) (action : Action) (spelling : String) : Prop :=
  ∀ k part, PartOf ctx m action k spelling part → ∃ c, m.find? part = some c

namespace Classified

variable {ctx : Context} {m : Memo} {action : Action} {spelling : String} {c : Category}

theorem leaf (hc : m.find? spelling = some c) (ha : c.isArray = false)
    (ht : c.tuple? action = none) : Classified ctx m action spelling := by
  intro k part hpart
  obtain ⟨-, rfl⟩ := (PartOf.leaf_iff hc ha ht).mp hpart
  exact ⟨c, hc⟩

theorem array {elem : String} (hc : m.find? spelling = some c) (ha : c.isArray = true)
    (he : elementType? spelling = some elem) (h : Classified ctx m action elem) :
    Classified ctx m action spelling := by
  intro k part hpart
  rcases (PartOf.array_iff hc ha).mp hpart with ⟨-, rfl⟩ | ⟨elem', he', inside⟩
  · exact ⟨c, hc⟩
  · rw [he] at he'
    cases he'
    exact h k part inside

theorem tuple {name : String} {members : List TupleMember} (hc : m.find? spelling = some c)
    (ht : c.tuple? action = some name) (hm : ctx.tupleMembers name = .ok members)
    (h : ∀ member ∈ members, Classified ctx m action member.type) :
    Classified ctx m action spelling := by
  intro k part hpart
  rcases (PartOf.tuple_iff hc ht).mp hpart with ⟨-, rfl⟩ | ⟨members', hm', member, hmem, j, -, inside⟩
  · exact ⟨c, hc⟩
  · rw [hm] at hm'
    cases hm'
    exact h member hmem j part inside

end Classified

/-! ## Jobs -/

/-- The spellings a job is about. -/
def PushJob.Concerns (ctx : Context) : PushJob → String → Prop
  | .value spelling _, part => part = spelling
  | .tuple name _, part => ∃ members, ctx.tupleMembers name = .ok members ∧
      ∃ member ∈ members, part = member.type
  | .members _ _ rest, part => ∃ member ∈ rest, part = member.type

/-- The spellings a job is about. -/
def ReadJob.Concerns (ctx : Context) : ReadJob → String → Prop
  | .value _ spelling _ _, part => part = spelling
  | .tuple _ name _ _, part => ∃ members, ctx.tupleMembers name = .ok members ∧
      ∃ member ∈ members, part = member.type
  | .members _ _ _ rest, part => ∃ member ∈ rest, part = member.type

/-- **An element shows exactly one dimension less than its array**, so a recursion over elements that
runs on the dimensions never runs out of them. -/
theorem arrayRank_eq {spelling elem : String} (h : elementType? spelling = some elem) :
    arrayRank spelling = arrayRank elem + 1 := by
  obtain ⟨t, d, inner, hparse, hdims, helem⟩ := arrayDims_of_elementType? h
  simp only [arrayRank, hparse, helem, hdims, List.length_cons]

end LuaGlue
