import LuaGlue.Proofs.CType.Words
import LuaGlue.Proofs.Context.Alphabet

/-!
# Words in what generation knows

None of the strings of an interface and of a manifest has anything of the auxiliary library in it
(`Context.Foreign`): then neither has what generation looks up or cuts out of them.
-/

set_option autoImplicit false

namespace LuaGlue

open Text

/-- What generation knows has nothing of the auxiliary library in it. -/
structure Context.Foreign (ctx : Context) : Prop where
  interface : ∀ t ∈ ctx.interface.texts, Text.Foreign t
  manifest : ∀ t ∈ ctx.manifest.texts, Text.Foreign t
  naming : ∀ t ∈ ctx.naming.texts, Text.Foreign t
  index : ∀ t ∈ ctx.index.names, Text.Foreign t

/-- The same of the name and the spelling of a field. -/
structure Field.Foreign (f : Field) : Prop where
  name : Text.Foreign f.name
  type : Text.Foreign f.type

namespace Context

variable (ctx : Context)

theorem null_quiet : Quiet ctx.null := by
  unfold null
  split <;> exact quiet_literal (by decide)

theorem emptyBraces_quiet : Quiet ctx.emptyBraces := by
  unfold emptyBraces
  split <;> exact quiet_literal (by decide)

theorem zeroInit_quiet (c : Category) : Quiet (ctx.zeroInit c) := by
  unfold zeroInit
  split
  · exact quiet_literal (by decide)
  · exact quiet_literal (by decide)
  · exact quiet_literal (by decide)
  · split
    · exact ctx.emptyBraces_quiet
    · exact quiet_literal (by decide)
  · exact ctx.null_quiet
  · exact ctx.null_quiet
  · exact ctx.null_quiet
  · exact ctx.null_quiet
  · exact ctx.null_quiet
  · exact ctx.emptyBraces_quiet

theorem zeroLiteral?_quiet {valueType zero : String} {c : Category} (ht : Quiet valueType)
    (hz : ctx.zeroLiteral? valueType c = some zero) : Quiet zero := by
  unfold zeroLiteral? at hz
  split at hz
  · exact Option.some.inj hz ▸ quiet_literal (by decide)
  · exact Option.some.inj hz ▸ quiet_literal (by decide)
  · exact Option.some.inj hz ▸ quiet_literal (by decide)
  · obtain rfl := Option.some.inj hz
    simp (disch := decide) [quiet_open, quiet_end, quiet_literal, ht]
  · exact Option.some.inj hz ▸ ctx.null_quiet
  · exact Option.some.inj hz ▸ ctx.null_quiet
  · exact Option.some.inj hz ▸ ctx.null_quiet
  · exact Option.some.inj hz ▸ ctx.null_quiet
  · cases hz

end Context

namespace Context.Foreign

variable {ctx : Context} (h : ctx.Foreign)

include h

/-- A metatable's name: the module's and the type's, which has no underscore. -/
theorem metatable (native : String) : Quiet (ctx.metatable native) := by
  have hhome := (h.naming _ (Naming.metatableHome_mem _)).quiet
  have htype : Text.Foreign (ctx.naming.typeName native) :=
    foreign_of_not_mem (by decide) (typeName_noUnderscore ctx.naming native)
  unfold Context.metatable Naming.metatable
  simp (disch := decide) [quiet_open, quiet_between, quiet_literal, hhome, htype.quiet]

theorem byteRange? {name : String} {range : ByteRange} (hr : ctx.byteRange? name = some range) :
    Quiet range.pointer ∧ Quiet range.size := by
  have htext : ∀ t ∈ range.texts, Quiet t := fun t ht =>
    (h.manifest t (Context.byteRange?_texts hr t ht)).quiet
  exact ⟨htext _ (by simp [ByteRange.texts]), htext _ (by simp [ByteRange.texts])⟩

theorem tupleMember (name : String) {entry : String} (hentry : Text.Foreign entry) :
    StaysOrFails Anything (fun m => Text.Foreign m.field ∧ Text.Foreign m.type)
      (ctx.tupleMember name entry) := by
  rcases Context.tupleMember_from ctx name entry with hm | ⟨m, hm, hfield, htype⟩ <;> rw [hm]
  · exact ⟨Text.over_anything name, Text.over_anything entry⟩
  · refine ⟨hentry.of_infix hfield, ?_⟩
    rcases htype with htype | htype | htype
    · exact hentry.of_infix htype
    · exact h.interface _ htype
    · exact htype ▸ foreign_literal (by decide)

theorem tupleMembers {name : String} {members : List TupleMember}
    (hm : ctx.tupleMembers name = .ok members) :
    ∀ m ∈ members, Text.Foreign m.field ∧ Text.Foreign m.type := by
  unfold Context.tupleMembers at hm
  split at hm
  · cases hm
  · cases hm
  · have hmembers := StaysOrFails.mapM fun entry hentry =>
      h.tupleMember name (h.manifest _ (Context.tupleEntries_mem ‹_› hentry))
    rw [hm] at hmembers
    exact hmembers

theorem aliasTarget {name target : String} (ht : ctx.manifest.types.aliases.lookup name = some target) :
    Text.Foreign target :=
  h.manifest _ (Context.aliasTarget_mem ht)

end Context.Foreign

end LuaGlue
