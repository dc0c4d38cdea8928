import LuaGlue.Proofs.Interface.Loaded

/-!
# Copies in a document

Extraction in several passes finds things more than once, so entries of a document come again after their
first mention (`Copies`). A copy is read and converted like the entry it is a copy of, and taking it in
changes nothing but the list of dependencies, which then has a name twice (`Loading.Alike`).
-/

set_option autoImplicit false

namespace LuaGlue

/-! ## Lists with copies -/

/-- The second list is the first one with further copies of entries, each somewhere after an entry that it
is a copy of. -/
inductive Copies {α : Type} (l : List α) : List α → Prop where
  | none : Copies l l
  | insert {before after : List α} {x : α} (h : Copies l (before ++ after)) (hx : x ∈ before) :
      Copies l (before ++ x :: after)

namespace Copies

variable {α β : Type} {l l' : List α}

theorem mem_iff (h : Copies l l') {x : α} : x ∈ l' ↔ x ∈ l := by
  induction h with
  | none => rfl
  | @insert before after y _ hy ih =>
    rw [← ih, List.mem_append, List.mem_append, List.mem_cons]
    constructor
    · rintro (hx | rfl | hx)
      · exact .inl hx
      · exact .inl hy
      · exact .inr hx
    · exact fun hx => hx.imp_right .inr

theorem filterMap (h : Copies l l') (f : α → Option β) :
    Copies (l.filterMap f) (l'.filterMap f) := by
  induction h with
  | none => exact .none
  | @insert before after x _ hx ih =>
    rw [List.filterMap_append] at ih ⊢
    rw [List.filterMap_cons]
    cases hfx : f x with
    | none => exact ih
    | some y => exact .insert ih (List.mem_filterMap.mpr ⟨x, hx, hfx⟩)

end Copies

/-- Reading all items of a list succeeds if reading each of them does. -/
theorem mapM_some_iff {α β : Type} {f : α → Option β} : ∀ {items : List α} {results : List β},
    items.mapM f = some results ↔ (∀ x ∈ items, (f x).isSome) ∧ items.filterMap f = results := by
  intro items
  induction items with
  | nil =>
    intro results
    rw [List.mapM_nil, List.filterMap_nil]
    simp
  | cons x rest ih =>
    intro results
    rw [List.mapM_cons, List.filterMap_cons, List.forall_mem_cons]
    cases hx : f x with
    | none => simp
    | some y =>
      simp only [Option.bind_eq_bind, Option.bind_some, Option.bind_eq_some_iff, ih,
        Option.isSome_some, true_and, and_assoc, exists_eq_left', Option.pure_def,
        Option.some.injEq, exists_and_left]

/-! ## Records -/

/-- A record that is converted at one place is converted likewise at every other. -/
theorem convert_anywhere {r : DeclRecord} {index : Nat} {d : Option Declaration}
    (h : r.convert index = .ok d) (index' : Nat) : r.convert index' = .ok d := by
  unfold DeclRecord.convert at h ⊢
  -- the index is only told when a name is missing
  split at h
  iterate 3
    split at h
    · cases h
    · exact h
  all_goals exact h

/-- The declaration that a record stands for, with whether it is a dependency's. -/
def DeclRecord.found? (r : DeclRecord) : Option (Bool × Declaration) :=
  match r.convert 0 with
  | .ok (some d) => some (r.isDependency, d)
  | _ => none

/-- Records are converted one by one. -/
theorem convertAll_ok_iff : ∀ {records : List DeclRecord} {index : Nat}
    {found : List (Bool × Declaration)}, convertAll index records = .ok found ↔
      (∀ r ∈ records, ∃ d, r.convert 0 = .ok d) ∧ records.filterMap DeclRecord.found? = found := by
  intro records
  induction records with
  | nil =>
    intro index found
    rw [convertAll, List.filterMap_nil]
    simp
  | cons r rest ih =>
    intro index found
    rw [convertAll, List.forall_mem_cons, List.filterMap_cons]
    cases hr : r.convert index with
    | error fault =>
      refine ⟨fun h => absurd h (by simp [bind, Except.bind]), fun h => ?_⟩
      obtain ⟨d, hd⟩ := h.1.1
      rw [convert_anywhere hd index] at hr
      cases hr
    | ok d =>
      have hr' := convert_anywhere hr 0
      have hconverted : ∃ d, r.convert 0 = .ok d := ⟨d, hr'⟩
      rw [and_iff_right hconverted]
      cases d with
      | none =>
        have hnone : r.found? = none := by rw [DeclRecord.found?, hr']
        simp only [hnone]
        exact ih
      | some d =>
        have hsome : r.found? = some (r.isDependency, d) := by rw [DeclRecord.found?, hr']
        simp only [hsome]
        change (convertAll (index + 1) rest).map ((r.isDependency, d) :: ·) = .ok found ↔ _
        cases hrest : convertAll (index + 1) rest with
        | error fault =>
          refine ⟨fun h => (by cases h), fun h => ?_⟩
          cases hrest.symm.trans (ih.mpr ⟨h.1, rfl⟩)
        | ok others =>
          obtain ⟨hall, rfl⟩ := ih.mp hrest
          rw [and_iff_right hall, Except.map, Except.ok.injEq]

/-! ## Loading -/

/-- The same declarations, and dependencies with the same members. -/
structure Loading.Alike (l l' : Loading) : Prop where
  decls : l'.decls = l.decls
  seen : l'.seen = l.seen
  dependencies : ∀ d, d ∈ l'.dependencies ↔ d ∈ l.dependencies

namespace Loading

variable {overloads : Bool} {l l' : Loading}

theorem Alike.refl (l : Loading) : l.Alike l := ⟨rfl, rfl, fun _ => Iff.rfl⟩

theorem Alike.trans {l'' : Loading} (h : l.Alike l') (h' : l'.Alike l'') : l.Alike l'' :=
  ⟨h'.decls.trans h.decls, h'.seen.trans h.seen,
    fun d => (h'.dependencies d).trans (h.dependencies d)⟩

theorem Alike.add (h : l.Alike l') (isDependency : Bool) (d : Declaration) :
    (l.add overloads isDependency d).Alike (l'.add overloads isDependency d) := by
  unfold Loading.add
  split
  · refine ⟨h.decls, h.seen, fun t => ?_⟩
    rw [List.mem_append, List.mem_append, h.dependencies]
  · dsimp only
    rw [h.seen]
    split
    · exact h
    · exact ⟨congrArg (· ++ [d]) h.decls, rfl, h.dependencies⟩

theorem Alike.addAll (found : List (Bool × Declaration)) : ∀ {l l' : Loading}, l.Alike l' →
    (l.addAll overloads found).Alike (l'.addAll overloads found) := by
  induction found with
  | nil => exact fun h => h
  | cons e rest ih => exact fun h => ih (h.add e.1 e.2)

/-- What has been taken in: its identity has been seen, or its name is a dependency. -/
def Has (overloads : Bool) (l : Loading) (e : Bool × Declaration) : Prop :=
  if e.1 then ∀ t ∈ e.2.dependency?, t ∈ l.dependencies else e.2.identity overloads ∈ l.seen

theorem has_add (e : Bool × Declaration) : (l.add overloads e.1 e.2).Has overloads e := by
  unfold Has Loading.add
  split
  · exact fun t ht => List.mem_append_right _ (Option.mem_toList.mpr ht)
  · dsimp only
    split
    · exact List.contains_iff_mem.mp ‹_›
    · exact List.mem_cons_self

theorem Has.add {e : Bool × Declaration} (h : l.Has overloads e) (isDependency : Bool)
    (d : Declaration) : (l.add overloads isDependency d).Has overloads e := by
  unfold Has at h ⊢
  unfold Loading.add
  split at h
  · rw [if_pos ‹_›]
    intro t ht
    split
    · exact List.mem_append_left _ (h t ht)
    · dsimp only
      split <;> exact h t ht
  · rw [if_neg ‹_›]
    split
    · exact h
    · dsimp only
      split
      · exact h
      · exact List.mem_cons_of_mem _ h

theorem Has.addAll {e : Bool × Declaration} (found : List (Bool × Declaration)) :
    ∀ {l : Loading}, l.Has overloads e → (l.addAll overloads found).Has overloads e := by
  induction found with
  | nil => exact fun h => h
  | cons e' rest ih => exact fun h => ih (h.add e'.1 e'.2)

theorem has_addAll {e : Bool × Declaration} : ∀ {found : List (Bool × Declaration)}, e ∈ found →
    ∀ l : Loading, (l.addAll overloads found).Has overloads e := by
  intro found
  induction found with
  | nil => exact fun h => absurd h List.not_mem_nil
  | cons e' rest ih =>
    intro he l
    rcases List.mem_cons.mp he with rfl | he
    · exact (has_add e).addAll rest
    · exact ih he _

/-- Taking in what has been taken in changes nothing. -/
theorem Has.alike {e : Bool × Declaration} (h : l.Has overloads e) :
    l.Alike (l.add overloads e.1 e.2) := by
  unfold Has at h
  unfold Loading.add
  split at h
  · rw [if_pos ‹_›]
    refine ⟨rfl, rfl, fun t => ?_⟩
    rw [List.mem_append, Option.mem_toList]
    exact or_iff_left_of_imp fun ht => h t ht
  · rw [if_neg ‹_›]
    dsimp only
    rw [if_pos (List.contains_iff_mem.mpr h)]
    exact .refl l

theorem addAll_append (l : Loading) (found found' : List (Bool × Declaration)) :
    l.addAll overloads (found ++ found') = (l.addAll overloads found).addAll overloads found' :=
  List.foldl_append

/-- **Copies change nothing** but how often a dependency is listed. -/
theorem copies_alike {found found' : List (Bool × Declaration)} (h : Copies found found')
    (l : Loading) : (l.addAll overloads found).Alike (l.addAll overloads found') := by
  induction h with
  | none => exact .refl _
  | @insert before after e _ he ih =>
    rw [addAll_append] at ih ⊢
    exact ih.trans ((has_addAll he l).alike.addAll after)

end Loading

/-! ## Documents -/

/-- Documents that differ in their lists of declarations only, of which the second has further copies. -/
inductive Json.Copies : Json → Json → Prop where
  | list {items items' : List Json} (h : LuaGlue.Copies items items') :
      Json.Copies (.arr items) (.arr items')
  | record {members members' : List (String × Json)} {items items' : List Json}
      (hdecls : members.lookup "decls" = some (.arr items))
      (hdecls' : members'.lookup "decls" = some (.arr items'))
      (hothers : ∀ name, name ≠ "decls" → members'.lookup name = members.lookup name)
      (h : LuaGlue.Copies items items') : Json.Copies (.obj members) (.obj members')

/-- Copies of items are read like the items. -/
theorem Copies.mapM {α β : Type} {l l' : List α} (h : Copies l l') {f : α → Option β}
    {results : List β} (hresults : l.mapM f = some results) :
    ∃ results', l'.mapM f = some results' ∧ Copies results results' := by
  obtain ⟨hall, rfl⟩ := mapM_some_iff.mp hresults
  exact ⟨_, mapM_some_iff.mpr ⟨fun x hx => hall x (h.mem_iff.mp hx), rfl⟩, h.filterMap f⟩

/-- Copies of records are converted like the records. -/
theorem Copies.convertAll {records records' : List DeclRecord} (h : Copies records records')
    {index : Nat} {found : List (Bool × Declaration)}
    (hfound : LuaGlue.convertAll index records = .ok found) :
    ∃ found', LuaGlue.convertAll index records' = .ok found' ∧ Copies found found' := by
  obtain ⟨hall, rfl⟩ := convertAll_ok_iff.mp hfound
  exact ⟨_, convertAll_ok_iff.mpr ⟨fun r hr => hall r (h.mem_iff.mp hr), rfl⟩, h.filterMap _⟩

/-- The members of an object document are read one by one. -/
theorem ofMembers?_eq_some {member : String → Option Json} {d : Document} :
    Document.ofMembers? member = some d ↔
      Json.orElse none Json.strOrNull? (member "module") = some d.module ∧
      Json.orElse none Json.strOrNull? (member "prefix") = some d.stem ∧
      Json.orElse [] (Json.list? DeclRecord.ofJson?) (member "decls") = some d.decls := by
  unfold Document.ofMembers?
  simp only [Option.bind_eq_bind, Option.bind_eq_some_iff, Option.pure_def, Option.some.injEq]
  constructor
  · rintro ⟨module, hmodule, stem, hstem, decls, hdecls, rfl⟩
    exact ⟨hmodule, hstem, hdecls⟩
  · rintro ⟨hmodule, hstem, hdecls⟩
    exact ⟨_, hmodule, _, hstem, _, hdecls, rfl⟩

theorem ofJson_obj {members : List (String × Json)} {d : Document} :
    Document.ofJson (.obj members) = .ok d ↔
      Document.ofMembers? (fun name => members.lookup name) = some d := by
  unfold Document.ofJson
  dsimp only
  split <;> simp_all

theorem ofJson_arr {items : List Json} {d : Document} :
    Document.ofJson (.arr items) = .ok d ↔
      ∃ decls, items.mapM DeclRecord.ofJson? = some decls ∧ { decls := decls } = d := by
  unfold Document.ofJson
  dsimp only
  split <;> simp_all

/-- The records of a document with copies are copies of its records. -/
theorem Json.Copies.document {j j' : Json} (h : j.Copies j') {d : Document}
    (hd : Document.ofJson j = .ok d) :
    ∃ decls, Document.ofJson j' = .ok { d with decls := decls } ∧ LuaGlue.Copies d.decls decls := by
  cases h with
  | list h =>
    obtain ⟨decls, hitems, rfl⟩ := ofJson_arr.mp hd
    obtain ⟨decls', hitems', hcopies⟩ := h.mapM hitems
    exact ⟨decls', ofJson_arr.mpr ⟨decls', hitems', rfl⟩, hcopies⟩
  | record hdecls hdecls' hothers h =>
    obtain ⟨hmodule, hstem, hitems⟩ := ofMembers?_eq_some.mp (ofJson_obj.mp hd)
    rw [hdecls] at hitems
    obtain ⟨decls', hitems', hcopies⟩ := h.mapM hitems
    refine ⟨decls', ofJson_obj.mpr (ofMembers?_eq_some.mpr ⟨?_, ?_, ?_⟩), hcopies⟩
    · rw [hothers "module" (by decide)]
      exact hmodule
    · rw [hothers "prefix" (by decide)]
      exact hstem
    · rw [hdecls']
      exact hitems'

/-- **A document with copies is loaded like the document**, its dependencies having the same members. -/
theorem parse_copies {overloads : Bool} {text text' : String} {j j' : Json} {i : Interface}
    (hj : Json.parse? Json.maxDepth text = some j) (hj' : Json.parse? Json.maxDepth text' = some j')
    (h : j.Copies j') (hi : Interface.parse overloads text = .ok i) :
    ∃ ds, Interface.parse overloads text' = .ok { i with dependencies := ds } ∧
      ∀ d, d ∈ ds ↔ d ∈ i.dependencies := by
  obtain ⟨j₀, document, found, hj₀, hdocument, hfound, rfl⟩ := parse_ok.mp hi
  cases hj.symm.trans hj₀
  obtain ⟨records, hdocument', hrecords⟩ := h.document hdocument
  obtain ⟨found', hfound', hcopies⟩ := hrecords.convertAll hfound
  have halike : (Loading.addAll overloads {} found).Alike (Loading.addAll overloads {} found') :=
    Loading.copies_alike hcopies {}
  refine ⟨_, parse_ok.mpr ⟨j', _, found', hj', hdocument', hfound', ?_⟩, halike.dependencies⟩
  rw [halike.decls]

/-! ## Owned buffers -/

/-- Marking owned buffers has no use for dependencies. -/
theorem attach_dependencies {m : Manifest} {i attached : Interface}
    (h : m.attachOwnedBuffers i = .ok attached) (ds : List DependencyType) :
    attached.dependencies = i.dependencies ∧
      m.attachOwnedBuffers { i with dependencies := ds } =
        .ok { attached with dependencies := ds } := by
  unfold Manifest.attachOwnedBuffers at h ⊢
  dsimp only
  cases hdecls : m.ownedBuffers.foldlM (fun decls (rule : OwnedBufferRule) => rule.attach decls)
      i.decls with
  | error fault =>
    rw [hdecls] at h
    cases h
  | ok decls =>
    rw [hdecls] at h
    cases h
    exact ⟨rfl, rfl⟩

end LuaGlue
