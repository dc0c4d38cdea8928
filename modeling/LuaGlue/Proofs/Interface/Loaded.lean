import LuaGlue.Interface.Load
import LuaGlue.Manifest
import Mathlib.Data.List.Nodup

/-!
# What is loaded

Loading converts every record (`convertAll`) and takes the results in one after another (`loadRecords_eq`).
Of several declarations with one identity the first is kept, so those of a loaded interface have different
identities (`parse_identities`). Marking owned buffers changes none of them (`attachOwnedBuffers_identities`).
-/

set_option autoImplicit false

namespace LuaGlue

/-! ## Converting and taking in -/

/-- The declarations that the records from position `index` on stand for, each with whether it is a
dependency's. -/
def convertAll (index : Nat) : List DeclRecord → Except InterfaceFault (List (Bool × Declaration))
  | [] => .ok []
  | r :: rest => do
    match ← r.convert index with
    | none => convertAll (index + 1) rest
    | some d => return (r.isDependency, d) :: (← convertAll (index + 1) rest)

/-- Takes declarations in, one after another. -/
def Loading.addAll (overloads : Bool) (l : Loading) (found : List (Bool × Declaration)) : Loading :=
  found.foldl (fun l d => l.add overloads d.1 d.2) l

theorem loadRecords_eq (overloads : Bool) : ∀ (records : List DeclRecord) (l : Loading) (index : Nat),
    loadRecords overloads l index records =
      (convertAll index records).map (l.addAll overloads) := by
  intro records
  induction records with
  | nil => intro l index; rfl
  | cons r rest ih =>
    intro l index
    unfold loadRecords convertAll
    cases r.convert index with
    | error fault => rfl
    | ok d =>
      cases d with
      | none => exact ih l (index + 1)
      | some d =>
        refine (ih _ _).trans ?_
        show _ = Except.map _ (Except.map _ _)
        cases convertAll (index + 1) rest <;> rfl

/-- A loaded interface, with the declarations it was made from. -/
theorem parse_ok {overloads : Bool} {text : String} {i : Interface} :
    Interface.parse overloads text = .ok i ↔
      ∃ j document found, Json.parse? Json.maxDepth text = some j ∧
        Document.ofJson j = .ok document ∧ convertAll 0 document.decls = .ok found ∧
        i = { module := document.module, stem := document.stem
              decls := (Loading.addAll overloads {} found).decls
              dependencies := (Loading.addAll overloads {} found).dependencies } := by
  unfold Interface.parse
  cases Json.parse? Json.maxDepth text with
  | none => simp
  | some j =>
    dsimp only
    cases hdocument : Document.ofJson j with
    | error fault => simp [hdocument, bind, Except.bind]
    | ok document =>
      change Document.load overloads document = _ ↔ _
      rw [Document.load, loadRecords_eq]
      cases hfound : convertAll 0 document.decls with
      | error fault => simp [hdocument, hfound, Except.map]
      | ok found => simp [hdocument, hfound, Except.map, eq_comm]

/-! ## Identities -/

/-- Different declarations, all of which have been seen. -/
structure Loading.Distinct (overloads : Bool) (l : Loading) : Prop where
  seen : ∀ d ∈ l.decls, d.identity overloads ∈ l.seen
  nodup : (l.decls.map (Declaration.identity overloads)).Nodup

theorem Loading.Distinct.add {overloads : Bool} {l : Loading} (h : l.Distinct overloads)
    (isDependency : Bool) (d : Declaration) : (l.add overloads isDependency d).Distinct overloads := by
  unfold Loading.add
  split
  · exact ⟨h.seen, h.nodup⟩
  · dsimp only
    split
    · exact h
    · rename_i hnew
      have hnew : d.identity overloads ∉ l.seen := fun hmem => hnew (List.contains_iff_mem.mpr hmem)
      constructor
      · refine List.forall_mem_append.mpr ⟨fun d' hd' => ?_, ?_⟩
        · exact List.mem_cons_of_mem _ (h.seen d' hd')
        · intro d' hd'
          rw [List.mem_singleton.mp hd']
          exact List.mem_cons_self
      · rw [List.map_append, List.nodup_append']
        refine ⟨h.nodup, List.nodup_singleton _, ?_⟩
        intro key hkey hkey'
        obtain ⟨d', hd', rfl⟩ := List.mem_map.mp hkey
        rw [List.map_singleton, List.mem_singleton] at hkey'
        exact hnew (hkey' ▸ h.seen d' hd')

theorem Loading.Distinct.addAll {overloads : Bool} (found : List (Bool × Declaration)) :
    ∀ {l : Loading}, l.Distinct overloads → (l.addAll overloads found).Distinct overloads := by
  induction found with
  | nil => exact fun h => h
  | cons d rest ih => exact fun h => ih (h.add d.1 d.2)

/-- **No two declarations of a loaded interface have one identity.** -/
theorem parse_identities {overloads : Bool} {text : String} {i : Interface}
    (h : Interface.parse overloads text = .ok i) :
    (i.decls.map (Declaration.identity overloads)).Nodup := by
  obtain ⟨j, document, found, -, -, -, rfl⟩ := parse_ok.mp h
  have hstart : Loading.Distinct overloads {} := ⟨by simp, List.nodup_nil⟩
  exact (hstart.addAll found).nodup

/-! ## Owned buffers -/

section

variable {overloads : Bool}

theorem attach_identities (rule : OwnedBufferRule) : ∀ {decls decls' : List Declaration},
    rule.attach decls = .ok decls' →
      decls'.map (Declaration.identity overloads) = decls.map (Declaration.identity overloads) := by
  intro decls
  induction decls with
  | nil =>
    intro decls' h
    cases h
    rfl
  | cons d rest ih =>
    intro decls' h
    have later (h : (rule.attach rest).map (d :: ·) = .ok decls') :
        decls'.map (Declaration.identity overloads) =
          (d :: rest).map (Declaration.identity overloads) := by
      cases hrest : rule.attach rest with
      | error fault =>
        rw [hrest] at h
        cases h
      | ok rest' =>
        rw [hrest] at h
        cases h
        rw [List.map_cons, List.map_cons, ih hrest]
    cases d with
    | struct s =>
      unfold OwnedBufferRule.attach at h
      split at h
      · split at h
        · cases h
        · cases h
          rfl
      · exact later h
    | function f => exact later h
    | enum e => exact later h
    | consts g => exact later h

theorem attachAll_identities (rules : List OwnedBufferRule) : ∀ {decls decls' : List Declaration},
    rules.foldlM (fun decls (rule : OwnedBufferRule) => rule.attach decls) decls = .ok decls' →
      decls'.map (Declaration.identity overloads) = decls.map (Declaration.identity overloads) := by
  induction rules with
  | nil =>
    intro decls decls' h
    cases h
    rfl
  | cons rule rest ih =>
    intro decls decls' h
    rw [List.foldlM_cons] at h
    cases hrule : rule.attach decls with
    | error fault =>
      rw [hrule] at h
      cases h
    | ok decls₁ =>
      rw [hrule] at h
      exact (ih h).trans (attach_identities rule hrule)

/-- Marking owned buffers leaves every declaration the one that it was. -/
theorem attachOwnedBuffers_identities {m : Manifest} {i i' : Interface}
    (h : m.attachOwnedBuffers i = .ok i') :
    i'.decls.map (Declaration.identity overloads) = i.decls.map (Declaration.identity overloads) := by
  unfold Manifest.attachOwnedBuffers at h
  cases hdecls : m.ownedBuffers.foldlM (fun decls (rule : OwnedBufferRule) => rule.attach decls)
      i.decls with
  | error fault =>
    rw [hdecls] at h
    cases h
  | ok decls =>
    rw [hdecls] at h
    cases h
    exact attachAll_identities _ hdecls

/-- **The interface that a module is generated from has no two declarations of one identity.** -/
theorem attached_identities {text : String} {m : Manifest} {loaded i : Interface}
    (hparse : Interface.parse overloads text = .ok loaded)
    (hattach : m.attachOwnedBuffers loaded = .ok i) :
    (i.decls.map (Declaration.identity overloads)).Nodup := by
  rw [attachOwnedBuffers_identities hattach]
  exact parse_identities hparse

theorem declared_of_mem_structs {i : Interface} {s : StructDecl} (hs : s ∈ i.structs) :
    .struct s ∈ i.decls := by
  obtain ⟨d, hd, hds⟩ := List.mem_filterMap.mp hs
  cases d <;> cases hds
  exact hd

theorem declared_of_mem_enums {i : Interface} {e : EnumDecl} (he : e ∈ i.enums) :
    .enum e ∈ i.decls := by
  obtain ⟨d, hd, hde⟩ := List.mem_filterMap.mp he
  cases d <;> cases hde
  exact hd

/-- A struct is known by its name. -/
theorem struct_unique {i : Interface} (h : (i.decls.map (Declaration.identity overloads)).Nodup)
    {s s' : StructDecl} (hs : s ∈ i.structs) (hs' : s' ∈ i.structs) (hname : s.name = s'.name) :
    s = s' := by
  have hsame : Declaration.struct s = .struct s' :=
    List.inj_on_of_nodup_map h (declared_of_mem_structs hs) (declared_of_mem_structs hs')
      (congrArg Identity.struct hname)
  cases hsame
  rfl

/-- An enum is known by its name. -/
theorem enum_unique {i : Interface} (h : (i.decls.map (Declaration.identity overloads)).Nodup)
    {e e' : EnumDecl} (he : e ∈ i.enums) (he' : e' ∈ i.enums) (hname : e.name = e'.name) : e = e' := by
  have hsame : Declaration.enum e = .enum e' :=
    List.inj_on_of_nodup_map h (declared_of_mem_enums he) (declared_of_mem_enums he')
      (congrArg Identity.enum hname)
  cases hsame
  rfl

/-- Two declarations of one identity stand at one position. -/
theorem position_unique {decls : List Declaration}
    (h : (decls.map (Declaration.identity overloads)).Nodup) {k l : Nat} {d d' : Declaration}
    (hd : decls[k]? = some d) (hd' : decls[l]? = some d')
    (hsame : d.identity overloads = d'.identity overloads) : k = l := by
  obtain ⟨hk', rfl⟩ := List.getElem?_eq_some_iff.mp hd
  obtain ⟨hl', rfl⟩ := List.getElem?_eq_some_iff.mp hd'
  have hk : k < (decls.map (Declaration.identity overloads)).length := by simpa using hk'
  have hl : l < (decls.map (Declaration.identity overloads)).length := by simpa using hl'
  have hsame' : (decls.map (Declaration.identity overloads))[k] =
      (decls.map (Declaration.identity overloads))[l] := by
    rw [List.getElem_map, List.getElem_map, hsame]
  exact h.getElem_inj_iff.mp hsame'

end

end LuaGlue
