import LuaGlue.Proofs.Code.Spelling
import LuaGlue.Proofs.Interface.Copies

/-!
# Names of parameters

A loaded function comes from a record of the document (`exists_convertFunction`). A parameter of the record that
has a name keeps it, and one that has none is called after its position, so no two of those have one name.
That a name of the first sort is none of the second is nothing that loading sees to: the names of all
parameters are different exactly if those given are and none of them is also made (`paramNames_nodup_iff`).
-/

set_option autoImplicit false

namespace LuaGlue

/-! ## Where a function comes from -/

theorem declared_of_mem_functions {i : Interface} {f : FunctionDecl} (hf : f ∈ i.functions) :
    .function f ∈ i.decls := by
  obtain ⟨d, hd, hdf⟩ := List.mem_filterMap.mp hf
  cases d <;> cases hdf
  exact hd

theorem Loading.mem_addAll {overloads : Bool} {d : Declaration} {found : List (Bool × Declaration)} :
    ∀ {l : Loading}, d ∈ (l.addAll overloads found).decls → d ∈ l.decls ∨ ∃ e ∈ found, e.2 = d := by
  induction found with
  | nil => exact fun h => .inl h
  | cons e rest ih =>
    intro l h
    rcases ih h with h | ⟨e', he', hd⟩
    · -- taking one in adds that one at most
      change d ∈ (l.add overloads e.1 e.2).decls at h
      unfold Loading.add at h
      split at h
      · exact .inl h
      · dsimp only at h
        split at h
        · exact .inl h
        · rcases List.mem_append.mp h with h | h
          · exact .inl h
          · exact .inr ⟨e, List.mem_cons_self, (List.mem_singleton.mp h).symm⟩
    · exact .inr ⟨e', List.mem_cons_of_mem e he', hd⟩

theorem DeclRecord.convert_function {r : DeclRecord} {index : Nat} {f : FunctionDecl}
    (h : r.convert index = .ok (some (.function f))) :
    ∃ name type, f = convertFunction name type r.params r.isVararg := by
  have notItems {e : Except InterfaceFault (List EnumItem)} {g : List EnumItem → Declaration}
      (hg : ∀ items, g items ≠ .function f) :
      e.map (fun items => some (g items)) ≠ .ok (some (.function f)) := by
    cases e with
    | error fault => exact fun h => by cases h
    | ok items => exact fun h => hg items (Option.some.inj (Except.ok.inj h))
  unfold DeclRecord.convert at h
  split at h
  · split at h
    · cases h
    · split at h
      · cases h
      · exact ⟨_, _, (Declaration.function.inj (Option.some.inj (Except.ok.inj h))).symm⟩
  iterate 2
    split at h
    · cases h
    · cases h
  · refine absurd h ?_
    cases properName r.name with
    | some name => exact notItems fun _ => by simp
    | none => exact notItems fun _ => by simp
  · exact absurd h (notItems fun _ => by simp)
  · cases h

/-- **A loaded function is converted from a record.** -/
theorem exists_convertFunction {overloads : Bool} {text : String} {i : Interface} {f : FunctionDecl}
    (hparse : Interface.parse overloads text = .ok i) (hf : f ∈ i.functions) :
    ∃ name type params isVararg, f = convertFunction name type params isVararg := by
  obtain ⟨j, document, found, -, -, hfound, rfl⟩ := parse_ok.mp hparse
  rcases Loading.mem_addAll (declared_of_mem_functions hf) with h | ⟨e, he, hdecl⟩
  · exact absurd h List.not_mem_nil
  · obtain ⟨-, rfl⟩ := convertAll_ok_iff.mp hfound
    obtain ⟨r, -, hr⟩ := List.mem_filterMap.mp he
    unfold DeclRecord.found? at hr
    split at hr
    · rename_i d hconvert
      cases hr
      subst hdecl
      obtain ⟨name, type, rfl⟩ := DeclRecord.convert_function hconvert
      exact ⟨name, type, r.params, r.isVararg, rfl⟩
    · cases hr

/-! ## Names given and made -/

theorem ParamRecord.name_convert {p : ParamRecord} {position : Nat}
    (h : (p.convert position).unnamed = true) : (p.convert position).name = "arg" ++ toString position := by
  have hnone : properName p.name = none := Option.isNone_iff_eq_none.mp h
  rw [ParamRecord.convert, hnone]
  rfl

/-- The names of the parameters that the declaration names. -/
def FunctionDecl.givenNames (f : FunctionDecl) : List String :=
  (f.params.filter fun p => !p.unnamed).map (·.name)

/-- The names made for the parameters that it does not name. -/
def FunctionDecl.madeNames (f : FunctionDecl) : List String :=
  (f.params.filter (·.unnamed)).map (·.name)

/-- Names made from different positions are different. -/
theorem madeNames_nodup (name type : String) (params : List ParamRecord) (isVararg : Bool) :
    (convertFunction name type params isVararg).madeNames.Nodup := by
  have hmade : (convertFunction name type params isVararg).madeNames =
      ((params.zipIdx.filter fun x => (x.1.convert x.2).unnamed).map (·.2)).map
        ("arg" ++ toString ·) := by
    rw [FunctionDecl.madeNames, convertFunction]
    dsimp only
    rw [List.mapIdx_eq_zipIdx_map, List.filter_map, List.map_map, List.map_map]
    refine List.map_congr_left fun x hx => ?_
    exact ParamRecord.name_convert (List.mem_filter.mp hx).2
  rw [hmade]
  have hall : (params.zipIdx.map (·.2)).Nodup := by
    rw [List.zipIdx_map_snd]
    exact List.nodup_range'
  have hpositions : ((params.zipIdx.filter fun x => (x.1.convert x.2).unnamed).map (·.2)).Nodup :=
    hall.sublist (List.filter_sublist.map _)
  refine hpositions.map fun m n h => ?_
  exact toString_inj ((String.append_right_inj _).mp h)

theorem FunctionDecl.names_perm (f : FunctionDecl) :
    (f.params.map (·.name)).Perm (f.madeNames ++ f.givenNames) := by
  rw [madeNames, givenNames, ← List.map_append]
  exact ((List.filter_append_perm (·.unnamed) f.params).map _).symm

/-- **The parameters of a loaded function have different names exactly if those given are different and none
of them is one that is made.** -/
theorem paramNames_nodup_iff {overloads : Bool} {text : String} {i : Interface} {f : FunctionDecl}
    (hparse : Interface.parse overloads text = .ok i) (hf : f ∈ i.functions) :
    (f.params.map (·.name)).Nodup ↔ f.givenNames.Nodup ∧ ∀ name ∈ f.givenNames, name ∉ f.madeNames := by
  obtain ⟨name, type, params, isVararg, rfl⟩ := exists_convertFunction hparse hf
  rw [(FunctionDecl.names_perm _).nodup_iff, List.nodup_append', and_iff_right (madeNames_nodup ..)]
  refine and_congr_right fun _ => ?_
  exact ⟨fun h name hgiven hmade => h hmade hgiven, fun h name hmade hgiven => h name hgiven hmade⟩

end LuaGlue
