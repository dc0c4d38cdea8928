import LuaGlue.Proofs.EnumValue.Reading

/-!
# Which enums are resolved

An enum as C has it: its members give no value, a number or an expression of the grammar, and every value fits
(`Enumerates`). `resolveItems` gives the members these values, and does not give up, if and only if all the
expressions are readable (`enumeration_resolved_iff`).
-/

set_option autoImplicit false

namespace LuaGlue

open Text

/-- The members that C makes of a list of enumerators, behind the members `before`, and the expressions that
stand in it. Names are names, and values fit. -/
inductive Enumerates : List EnumItem → List ItemSpelling → List EnumItem → List EnumExpr → Prop
  | nil {before : List EnumItem} : Enumerates before [] [] []
  | next {before members : List EnumItem} {name : String} {items : List ItemSpelling} {es : List EnumExpr}
      (hname : IsName name.toList) (hfits : isWide (following before) = true)
      (h : Enumerates (before ++ [⟨name, following before⟩]) items members es) :
      Enumerates before (⟨name, none⟩ :: items) (⟨name, following before⟩ :: members) es
  | number {before members : List EnumItem} {name : String} {items : List ItemSpelling}
      {es : List EnumExpr} {n : Int} (hname : IsName name.toList) (hfits : isWide n = true)
      (h : Enumerates (before ++ [⟨name, n⟩]) items members es) :
      Enumerates before (⟨name, some (.number n)⟩ :: items) (⟨name, n⟩ :: members) es
  | expression {before members : List EnumItem} {name s : String} {items : List ItemSpelling}
      {es : List EnumExpr} {e : EnumExpr} {v : Int} (hname : IsName name.toList)
      (hspelled : Spells .expression s.toList e) (hvalue : e.value (knownAfter before) = some v)
      (hfits : isWide v = true) (h : Enumerates (before ++ [⟨name, v⟩]) items members es) :
      Enumerates before (⟨name, some (.text s)⟩ :: items) (⟨name, v⟩ :: members) (e :: es)

/-- One member: the others follow as if it had been there before. -/
theorem resolveFrom_after {before resolved : List EnumItem} {name : String} {value : Option ItemValue}
    {v : Int} {items : List ItemSpelling}
    (h : (ItemSpelling.mk name value).resolve (knownAfter before) (nextAfter before) = .ok v) :
    resolveFrom (knownAfter before) (nextAfter before) (⟨name, value⟩ :: items) = .ok resolved ↔
      ∃ rest, resolveFrom (knownAfter (before ++ [⟨name, v⟩])) (nextAfter (before ++ [⟨name, v⟩])) items =
        .ok rest ∧ resolved = ⟨name, v⟩ :: rest := by
  rw [resolveFrom_cons_iff, knownAfter_concat, nextAfter_concat]
  constructor
  · rintro ⟨w, rest, hw, hrest, rfl⟩
    obtain rfl := Except.ok.inj (h.symm.trans hw)
    exact ⟨rest, hrest, rfl⟩
  · rintro ⟨rest, hrest, rfl⟩
    exact ⟨v, rest, h, hrest, rfl⟩

theorem resolveFrom_iff {before members : List EnumItem} {items : List ItemSpelling} {es : List EnumExpr}
    (hnamed : ∀ member ∈ before, IsName member.name.toList)
    (hfit : ∀ member ∈ before, isWide member.value = true) (h : Enumerates before items members es)
    {resolved : List EnumItem} :
    resolveFrom (knownAfter before) (nextAfter before) items = .ok resolved ↔
      resolved = members ∧ ∀ e ∈ es, e.isReadable = true := by
  have hconcat {P : EnumItem → Prop} {before : List EnumItem} {member : EnumItem}
      (h : ∀ member ∈ before, P member) (hmember : P member) : ∀ m ∈ before ++ [member], P m :=
    List.forall_mem_append.mpr ⟨h, List.forall_mem_singleton.mpr hmember⟩
  have hcons {member : EnumItem} {members : List EnumItem} {p : Prop} {resolved : List EnumItem} :
      (∃ rest, (rest = members ∧ p) ∧ resolved = member :: rest) ↔ resolved = member :: members ∧ p := by
    constructor
    · rintro ⟨rest, ⟨rfl, hp⟩, rfl⟩
      exact ⟨rfl, hp⟩
    · rintro ⟨rfl, hp⟩
      exact ⟨members, ⟨rfl, hp⟩, rfl⟩
  induction h generalizing resolved with
  | nil =>
    constructor
    · intro h
      exact ⟨(Except.ok.inj h).symm, List.forall_mem_nil _⟩
    · rintro ⟨rfl, -⟩
      rfl
  | @next before members name items es hname hfits h ih =>
    have hresolve : (ItemSpelling.mk name none).resolve (knownAfter before) (nextAfter before) =
        .ok (following before) := congrArg Except.ok ((nextAfter_exact hfit).2.mpr hfits)
    simp only [resolveFrom_after hresolve, ih (hconcat hnamed hname) (hconcat hfit hfits), hcons]
  | @number before members name items es n hname hfits h ih =>
    have hresolve : (ItemSpelling.mk name (some (.number n))).resolve (knownAfter before)
        (nextAfter before) = .ok n := rfl
    simp only [resolveFrom_after hresolve, ih (hconcat hnamed hname) (hconcat hfit hfits), hcons]
  | @expression before members name s items es e v hname hspelled hvalue hfits h ih =>
    have hread := hspelled.expression?_eq (knownAfter_forall hnamed) (knownAfter_forall hfit) hvalue
    rw [wrap_of_isWide hfits] at hread
    cases hreadable : e.isReadable with
    | true =>
      have hresolve : (ItemSpelling.mk name (some (.text s))).resolve (knownAfter before)
          (nextAfter before) = .ok v := by
        rw [hreadable, if_pos rfl] at hread
        simp only [ItemSpelling.resolve, hread]
      rw [List.forall_mem_cons, and_iff_right hreadable]
      simp only [resolveFrom_after hresolve, ih (hconcat hnamed hname) (hconcat hfit hfits), hcons]
    | false =>
      have hresolve : (ItemSpelling.mk name (some (.text s))).resolve (knownAfter before)
          (nextAfter before) = .error ⟨name, s⟩ := by
        rw [hreadable] at hread
        simp only [ItemSpelling.resolve, hread]
        rfl
      rw [resolveFrom_cons_iff, hresolve]
      simp [hreadable]

/-- **An enum is resolved if and only if all its expressions are readable**, and then its members have the
values that C gives them. -/
theorem enumeration_resolved_iff {items : List ItemSpelling} {members : List EnumItem} {es : List EnumExpr}
    (h : Enumerates [] items members es) {resolved : List EnumItem} :
    resolveItems items = .ok resolved ↔ resolved = members ∧ ∀ e ∈ es, e.isReadable = true :=
  resolveFrom_iff (List.forall_mem_nil _) (List.forall_mem_nil _) h

theorem enumeration_resolved_iff_flags :
    Enumerates [] [⟨"SHOWN", some (.text "(1 << 1)")⟩, ⟨"HIDDEN", none⟩, ⟨"ALL", some (.text "SHOWN | 0x8u")⟩]
      [⟨"SHOWN", 2⟩, ⟨"HIDDEN", 3⟩, ⟨"ALL", 10⟩]
      [.paren (.shift (.literal 1) (.literal 1)), .join (.name "SHOWN") (.literal 8)] ∧
    resolveItems [⟨"SHOWN", some (.text "(1 << 1)")⟩, ⟨"HIDDEN", none⟩,
        ⟨"ALL", some (.text "SHOWN | 0x8u")⟩] =
      .ok [⟨"SHOWN", 2⟩, ⟨"HIDDEN", 3⟩, ⟨"ALL", 10⟩] := by
  have hspace : ∀ c ∈ [' '], isBlank c = true := List.forall_mem_singleton.mpr (by decide)
  have hone : Spells .core ['1'] (.literal 1) := .decimal (by decide) (by decide)
  have height : Spells .core ['0', 'x', '8', 'u'] (.literal 8) :=
    .literal ⟨['0', 'x', '8'], ['u'], rfl, List.forall_mem_singleton.mpr (by decide), .hex (.inl rfl) ⟨8, digits?_iff.mp (by decide), rfl⟩⟩
  have hname : Spells .core "SHOWN".toList (.name "SHOWN") := .name (by decide)
  have hnone : ∀ c ∈ [], isBlank c = true := List.forall_mem_nil _
  have hshift : Spells .expression "1 << 1".toList (.shift (.literal 1) (.literal 1)) :=
    .single (.shift (.operand hnone hspace hone) (.operand hspace hnone hone))
  have hparen : Spells .expression "(1 << 1)".toList (.paren (.shift (.literal 1) (.literal 1))) :=
    .single (.one (.operand hnone hnone (.paren hshift)))
  have hjoin : Spells .expression "SHOWN | 0x8u".toList (.join (.name "SHOWN") (.literal 8)) :=
    .join (.single (.one (.operand hnone hspace hname))) (.one (.operand hspace hnone height))
  have h : Enumerates [] [⟨"SHOWN", some (.text "(1 << 1)")⟩, ⟨"HIDDEN", none⟩,
        ⟨"ALL", some (.text "SHOWN | 0x8u")⟩]
      [⟨"SHOWN", 2⟩, ⟨"HIDDEN", 3⟩, ⟨"ALL", 10⟩]
      [.paren (.shift (.literal 1) (.literal 1)), .join (.name "SHOWN") (.literal 8)] :=
    .expression (by decide) hparen rfl (by decide)
      (.next (by decide) (by decide) (.expression (by decide) hjoin (by decide) (by decide) .nil))
  exact ⟨h, (enumeration_resolved_iff h).mpr ⟨rfl, by decide⟩⟩

/-- The parentheses of two operands are taken for one pair around the shift. -/
theorem enumeration_refused :
    Enumerates [] [⟨"FLAG", some (.text "(1) << (2)")⟩] [⟨"FLAG", 4⟩]
      [.shift (.paren (.literal 1)) (.paren (.literal 2))] ∧
    resolveItems [⟨"FLAG", some (.text "(1) << (2)")⟩] = .error ⟨"FLAG", "(1) << (2)"⟩ := by
  refine ⟨?_, by decide +kernel⟩
  have hspace : ∀ c ∈ [' '], isBlank c = true := List.forall_mem_singleton.mpr (by decide)
  have hnone : ∀ c ∈ [], isBlank c = true := List.forall_mem_nil _
  have hone : Spells .core ['1'] (.literal 1) := .decimal (by decide) (by decide)
  have htwo : Spells .core ['2'] (.literal 2) := .decimal (by decide) (by decide)
  have hbase : Spells .core "(1)".toList (.paren (.literal 1)) :=
    .paren (.single (.one (.operand hnone hnone hone)))
  have hcount : Spells .core "(2)".toList (.paren (.literal 2)) :=
    .paren (.single (.one (.operand hnone hnone htwo)))
  have hshift : Spells .expression "(1) << (2)".toList (.shift (.paren (.literal 1)) (.paren (.literal 2))) :=
    .single (.shift (.operand hnone hspace hbase) (.operand hspace hnone hcount))
  exact .expression (by decide) hshift rfl (by decide) .nil

end LuaGlue
