import LuaGlue.Callback
import LuaGlue.Proofs.CType.RoundTrip
import Mathlib.Data.List.Infix

/-!
# Names that are spelled alike

The names of bindings are glued together from native names by nine schemes (`Scheme`). A scheme is
known by how its names begin, so names of different schemes differ, but for getters and setters: they
begin with `tether_` and then a native name, and so can meet a name of another scheme. Within a scheme
a name can be taken apart again when it ends in something known, as the functions of a struct do
(`method_eq`) and the trampolines of a pool (`last_mark`). The owner and the field of a callback
are only divided by an underscore, which both may contain (`glued_of_spelling`).

What is left are three ways for different bindings to be spelled alike (`eq_or_clash`).
-/

set_option autoImplicit false

namespace LuaGlue

/-! ## Schemes -/

/-- The ways of naming bindings. -/
inductive Scheme where
  /-- What scripts call: wrappers and the functions of structs. -/
  | library
  | converter
  | accessor
  | slot
  | dispatcher
  | trampoline
  | table
  | enum
  | consts
  deriving DecidableEq

def Scheme.head : Scheme → String
  | library => "l_"
  | converter => "tether_to_"
  | accessor => "tether_"
  | slot => "TETHER_SLOT_"
  | dispatcher => "tether_call_"
  | trampoline => "tether_trampoline_"
  | table => "tether_trampolines_"
  | enum => "tether_enum_"
  | consts => "tether_consts_"

/-- Only the accessors' names begin as other names do. -/
theorem Scheme.head_prefix {k k' : Scheme} (h : k.head.toList <+: k'.head.toList) :
    k = k' ∨ k = accessor := by
  revert h
  cases k <;> cases k' <;> decide

/-- What scripts can do with a struct as a whole. -/
inductive Method where
  | new
  | index
  | newIndex
  | collect
  deriving DecidableEq

def Method.ending : Method → String
  | new => "_new"
  | index => "__index"
  | newIndex => "__newindex"
  | collect => "__gc"

/-- No ending ends in another one. -/
theorem Method.ending_suffix {m m' : Method} (h : m.ending.toList <:+ m'.ending.toList) : m = m' := by
  revert h
  cases m <;> cases m' <;> decide

namespace Symbol

/-- The scheme of a binding. The names that stand once in every file have none. -/
def scheme? : Symbol → Option Scheme
  | wrapper _ | constructor _ | indexer _ | newIndexer _ | collector _ => some .library
  | converter _ => some .converter
  | getter .. | setter .. => some .accessor
  | slot .. => some .slot
  | dispatcher .. => some .dispatcher
  | trampoline .. => some .trampoline
  | trampolineTable .. => some .table
  | enumRegistrar _ => some .enum
  | constRegistrar _ => some .consts
  | handWritten _ | callbackType .. | metatableRegistrar | functionTable | entryPoint _ => none

/-- Whether a name is that of a binding. -/
def isBinding (s : Symbol) : Bool := s.scheme?.isSome

/-- Getters and setters. -/
def isAccessor : Symbol → Bool
  | getter .. | setter .. => true
  | _ => false

/-- What an accessor's name may meet besides other accessors. -/
def isHelper : Symbol → Bool
  | converter _ | dispatcher .. | trampoline .. | trampolineTable .. | enumRegistrar _ => true
  | _ => false

/-- The struct that a function is made for as a whole, and which function it is. -/
def method? : Symbol → Option (String × Method)
  | constructor s => some (s, .new)
  | indexer s => some (s, .index)
  | newIndexer s => some (s, .newIndex)
  | collector s => some (s, .collect)
  | _ => none

/-- The pool of closures that a name belongs to. -/
def pool? : Symbol → Option CallbackSlot
  | slot owner field | dispatcher owner field | trampolineTable owner field => some ⟨owner, field⟩
  | trampoline owner field _ => some ⟨owner, field⟩
  | _ => none

end Symbol

/-- How the names of a pool are made from those of its owner and field. -/
def CallbackSlot.glued (p : CallbackSlot) : String := p.owner ++ "_" ++ p.field

section

variable {x y : Symbol} {k k' : Scheme}

/-- A name begins as its scheme says. A wrapper's name comes from the plan. -/
theorem Symbol.spelling_begins (hk : x.scheme? = some k)
    (hw : ∀ name, x = .wrapper name → ∃ rest, name = "l_" ++ rest) :
    k.head.toList <+: x.spelling.toList := by
  cases x with
  | wrapper name =>
    cases hk
    obtain ⟨rest, rfl⟩ := hw name rfl
    unfold Symbol.spelling Scheme.head
    rw [String.toList_append]
    exact List.prefix_append _ _
  | _ =>
    cases hk <;> unfold Symbol.spelling Scheme.head <;>
      simp only [String.toList_append, List.append_assoc] <;> exact List.prefix_append _ _

/-- Names of two schemes are spelled alike only if one is an accessor's. -/
theorem scheme_of_spelling (hx : k.head.toList <+: x.spelling.toList)
    (hy : k'.head.toList <+: y.spelling.toList) (h : x.spelling = y.spelling) :
    k = k' ∨ (k = .accessor ∧ Scheme.accessor.head.toList <+: k'.head.toList) ∨
      (k' = .accessor ∧ Scheme.accessor.head.toList <+: k.head.toList) := by
  rw [h] at hx
  rcases List.prefix_or_prefix_of_prefix hx hy with hp | hp
  · rcases Scheme.head_prefix hp with rfl | rfl
    · exact .inl rfl
    · exact .inr (.inl ⟨rfl, hp⟩)
  · rcases Scheme.head_prefix hp with rfl | rfl
    · exact .inl rfl
    · exact .inr (.inr ⟨rfl, hp⟩)

end

/-! ## Functions of a struct -/

section

variable {x y : Symbol}

theorem method_spelling {p : String × Method} (hx : x.method? = some p) :
    x.spelling = "l_" ++ (p.1 ++ p.2.ending) := by
  cases x <;> cases hx <;> exact String.append_assoc ..

/-- **The functions of structs have different names.** -/
theorem method_eq {p q : String × Method} (hx : x.method? = some p) (hy : y.method? = some q)
    (h : x.spelling = y.spelling) : x = y := by
  rw [method_spelling hx, method_spelling hy, String.append_right_inj] at h
  have hends : p.2.ending.toList <:+ (q.1 ++ q.2.ending).toList := by
    rw [← h, String.toList_append]
    exact List.suffix_append _ _
  have hends' : q.2.ending.toList <:+ (q.1 ++ q.2.ending).toList := by
    rw [String.toList_append]
    exact List.suffix_append _ _
  -- of two endings of one text, one ends in the other
  have hmethod : p.2 = q.2 := by
    rcases List.suffix_or_suffix_of_suffix hends hends' with hs | hs
    · exact Method.ending_suffix hs
    · exact (Method.ending_suffix hs).symm
  have hstruct : p.1 = q.1 := by
    rwa [hmethod, String.append_left_inj] at h
  obtain rfl : p = q := Prod.ext hstruct hmethod
  cases x <;> cases hx <;> cases y <;> cases hy <;> rfl

end

/-! ## Pools -/

theorem toString_inj {m n : Nat} (h : toString m = toString n) : m = n := by
  have hdigits := congrArg (fun s => Text.digits? 10 s.toList) h
  change Text.digits? 10 (Nat.repr m).toList = Text.digits? 10 (Nat.repr n).toList at hdigits
  simp only [Nat.repr_eq_ofList_toDigits, String.toList_ofList, digits?_toDigits] at hdigits
  exact Option.some.inj hdigits

theorem underscore_not_mem_toString (n : Nat) : '_' ∉ (toString n).toList := fun h =>
  absurd (isDigit_of_mem_toString h) (by decide)

/-- Where a mark stands for the last time, a text can be cut. -/
theorem last_mark {mark : Char} {a b tail tail' : List Char} (h : mark ∉ tail) (h' : mark ∉ tail')
    (heq : a ++ mark :: tail = b ++ mark :: tail') : a = b ∧ tail = tail' := by
  have cut {c t t' : List Char} (ht : mark ∉ t) (hc : mark :: t = c ++ mark :: t') : c = [] ∧ t = t' := by
    cases c with
    | nil => exact ⟨rfl, (List.cons.inj hc).2⟩
    | cons z rest =>
      rw [List.cons_append] at hc
      obtain ⟨-, rfl⟩ := List.cons.inj hc
      exact absurd (List.mem_append_right _ List.mem_cons_self) ht
  rcases List.append_eq_append_iff.mp heq with ⟨c, rfl, hc⟩ | ⟨c, rfl, hc⟩
  · obtain ⟨rfl, rfl⟩ := cut h hc
    exact ⟨(List.append_nil a).symm, rfl⟩
  · obtain ⟨rfl, rfl⟩ := cut h' hc
    exact ⟨List.append_nil b, rfl⟩

theorem trampoline_spelling (owner field : String) (entry : Nat) :
    (Symbol.trampoline owner field entry).spelling.toList =
      "tether_trampoline_".toList ++
        ((CallbackSlot.glued ⟨owner, field⟩).toList ++ '_' :: (toString entry).toList) := by
  have hunderscore : "_".toList = ['_'] := rfl
  unfold Symbol.spelling CallbackSlot.glued
  simp only [String.toList_append, List.append_assoc, hunderscore, List.cons_append, List.nil_append]

/-- Names of one scheme for two pools, when they are spelled alike: the pools' owners and fields are the
same when glued together, and a pool has no name twice. -/
theorem glued_of_spelling {x y : Symbol} {p q : CallbackSlot} (hx : x.pool? = some p)
    (hy : y.pool? = some q) (hk : x.scheme? = y.scheme?) (h : x.spelling = y.spelling) :
    p.glued = q.glued ∧ (p = q → x = y) := by
  have glued {head a b a' b' : String} (h : head ++ a ++ "_" ++ b = head ++ a' ++ "_" ++ b') :
      CallbackSlot.glued ⟨a, b⟩ = CallbackSlot.glued ⟨a', b'⟩ := by
    simp only [String.append_assoc, String.append_right_inj] at h
    simpa only [CallbackSlot.glued, String.append_assoc] using h
  cases x <;> cases hx <;> cases y <;> cases hy <;> cases hk
  case trampoline.refl.trampoline.refl.refl owner field entry owner' field' entry' =>
    have hlist := congrArg String.toList h
    rw [trampoline_spelling, trampoline_spelling, List.append_cancel_left_eq] at hlist
    obtain ⟨hglued, hentry⟩ := last_mark (underscore_not_mem_toString entry)
      (underscore_not_mem_toString entry') hlist
    refine ⟨String.toList_inj.mp hglued, fun heq => ?_⟩
    cases heq
    rw [toString_inj (String.toList_inj.mp hentry)]
  all_goals
    refine ⟨glued h, fun heq => ?_⟩
    cases heq
    rfl

/-! ## Accessors -/

/-- A number is not what a getter or a setter is named for. -/
theorem accessor_ne_consts {x : Symbol} (hx : x.isAccessor = true) (position : Nat) :
    x.spelling ≠ (Symbol.constRegistrar position).spelling := by
  intro h
  -- an accessor's name has at least three underscores, a registrar's has two
  have hcount := congrArg (fun s => s.toList.count '_') h
  have hnumber : (toString position).toList.count '_' = 0 :=
    List.count_eq_zero.mpr (underscore_not_mem_toString position)
  have hconsts : "tether_consts_".toList.count '_' = 2 := rfl
  have hhead : "tether_".toList.count '_' = 1 := rfl
  have hget : "_get_".toList.count '_' = 2 := rfl
  have hset : "_set_".toList.count '_' = 2 := rfl
  cases x <;> cases hx <;> unfold Symbol.spelling at hcount <;>
    simp only [String.toList_append, List.count_append, hnumber, hconsts, hhead, hget, hset]
      at hcount <;> omega

/-- What a getter or a setter may be spelled like. -/
theorem accessor_meets {x y : Symbol} {k : Scheme} (hx : x.isAccessor = true)
    (hy : y.scheme? = some k) (hk : Scheme.accessor.head.toList <+: k.head.toList)
    (h : x.spelling = y.spelling) : y.isAccessor = true ∨ y.isHelper = true := by
  cases y with
  | constRegistrar position => exact absurd h (accessor_ne_consts hx position)
  | wrapper _ | constructor _ | indexer _ | newIndexer _ | collector _ | slot _ _ =>
    cases hy
    exact absurd hk (by decide)
  | getter _ _ | setter _ _ => exact .inl rfl
  | converter _ | dispatcher _ _ | trampoline _ _ _ | trampolineTable _ _ | enumRegistrar _ =>
    exact .inr rfl
  | handWritten _ | callbackType _ _ | metatableRegistrar | functionTable | entryPoint _ => cases hy

theorem isAccessor_of_scheme {x : Symbol} (hx : x.scheme? = some .accessor) : x.isAccessor = true := by
  cases x <;> cases hx <;> rfl

/-! ## Clashes -/

/-- The ways for two different bindings to be spelled alike. -/
inductive Symbol.Clash : Symbol → Symbol → Prop where
  /-- A wrapper has the name of a function that is made for a struct. -/
  | wrapper {name : String} {y : Symbol} (hy : y.method?.isSome = true) : Clash (.wrapper name) y
  /-- Two callback fields, whose names and owners are the same when glued together. -/
  | pool {x y : Symbol} {p q : CallbackSlot} (hx : x.pool? = some p) (hy : y.pool? = some q)
      (hne : p ≠ q) (hglued : p.glued = q.glued) : Clash x y
  /-- A getter or a setter has the name of another, or of a helper. -/
  | accessor {x y : Symbol} (hx : x.isAccessor = true)
      (hy : y.isAccessor = true ∨ y.isHelper = true) : Clash x y

theorem library_cases {x : Symbol} (hx : x.scheme? = some .library) :
    (∃ name, x = .wrapper name) ∨ ∃ p, x.method? = some p := by
  cases x <;> cases hx
  · exact .inl ⟨_, rfl⟩
  all_goals exact .inr ⟨_, rfl⟩

theorem pool_clash {x y : Symbol} {p q : CallbackSlot} (hx : x.pool? = some p)
    (hy : y.pool? = some q) (hk : x.scheme? = y.scheme?) (h : x.spelling = y.spelling) :
    x = y ∨ x.Clash y ∨ y.Clash x := by
  obtain ⟨hglued, heq⟩ := glued_of_spelling hx hy hk h
  by_cases hp : p = q
  · exact .inl (heq hp)
  · exact .inr (.inl (.pool hx hy hp hglued))

/-- **Bindings that are spelled alike are the same, or clash.** -/
theorem eq_or_clash {x y : Symbol} {k k' : Scheme} (hx : x.scheme? = some k)
    (hy : y.scheme? = some k') (hbegins : k.head.toList <+: x.spelling.toList)
    (hbegins' : k'.head.toList <+: y.spelling.toList) (h : x.spelling = y.spelling) :
    x = y ∨ x.Clash y ∨ y.Clash x := by
  rcases scheme_of_spelling hbegins hbegins' h with rfl | ⟨rfl, hk⟩ | ⟨rfl, hk⟩
  · have hsame : x.scheme? = y.scheme? := hx.trans hy.symm
    cases k with
    | library =>
      rcases library_cases hx with ⟨name, rfl⟩ | ⟨p, hp⟩
      · rcases library_cases hy with ⟨name', rfl⟩ | ⟨q, hq⟩
        · exact .inl (congrArg Symbol.wrapper h)
        · exact .inr (.inl (.wrapper (by rw [hq]; rfl)))
      · rcases library_cases hy with ⟨name', rfl⟩ | ⟨q, hq⟩
        · exact .inr (.inr (.wrapper (by rw [hp]; rfl)))
        · exact .inl (method_eq hp hq h)
    | accessor =>
      exact .inr (.inl (.accessor (isAccessor_of_scheme hx) (.inl (isAccessor_of_scheme hy))))
    | slot | dispatcher | trampoline | table =>
      cases x <;> cases hx
      cases y <;> cases hy
      exact pool_clash rfl rfl hsame h
    | converter =>
      cases x <;> cases hx
      cases y <;> cases hy
      exact .inl (congrArg Symbol.converter ((String.append_right_inj _).mp h))
    | enum =>
      cases x <;> cases hx
      cases y <;> cases hy
      exact .inl (congrArg Symbol.enumRegistrar ((String.append_right_inj _).mp h))
    | consts =>
      cases x <;> cases hx
      cases y <;> cases hy
      exact .inl (congrArg Symbol.constRegistrar (toString_inj ((String.append_right_inj _).mp h)))
  · exact .inr (.inl (.accessor (isAccessor_of_scheme hx)
      (accessor_meets (isAccessor_of_scheme hx) hy hk h)))
  · exact .inr (.inr (.accessor (isAccessor_of_scheme hy)
      (accessor_meets (isAccessor_of_scheme hy) hx hk h.symm)))

end LuaGlue
