import LuaGlue.Proofs.Code.Braces
import LuaGlue.Proofs.Generate.Alphabet
import LuaGlue.Proofs.Generate.Placeholders

/-!
# Braces of a generated file

Generated code keeps its braces in balance, whatever fails on the way (`generated_braces_nest`). There are two
halves to this. Of the blocks it is enough that no step closes one that it has not opened, which holds of every
step on every page, whatever the strings are (`Draft.KeepsLevel`): a step that comes to an end has written
`Code`, and one that breaks off has opened more than it closed. Of the braces in between it takes that the
strings of the module have none, since then all else that is written has them in pairs.
-/

set_option autoImplicit false

namespace LuaGlue

open Draft Text

/-! ## Sections of the file -/

section

variable {P : Char → Prop}

@[simp] theorem textLines_over {ls : List String} :
    (textLines ls).Over P ↔ ∀ t ∈ ls, Text.Over P t := by
  simp [textLines]

@[simp] theorem directives_over {ls : List String} :
    (directives ls).Over P ↔ ∀ t ∈ ls, Text.Over P t := by
  simp [directives]

@[simp] theorem blankLine_over : blankLine.Over P := ⟨trivial, trivial⟩

variable [Alphabet P]

theorem banner_over {title : String} (ht : Text.Over P title) : ∀ l ∈ banner title, l.Over P := by
  simp (disch := decide) [banner, over_literal, ht]

theorem sectionBanner_over {title : String} (ht : Text.Over P title) : (sectionBanner title).Over P :=
  Code.over_ofLines.mpr (banner_over ht)

theorem slotBindCode_over {null : String} (hnull : Text.Over P null) : (slotBindCode null).Over P := by
  unfold slotBindCode
  simp (disch := decide) [over_literal, hnull]

theorem slotArena_over {ctx : Context} {slots : List CallbackSlot} (hs : ∀ s ∈ slots, s.Over P) :
    (slotArena ctx slots).Over P := by
  have hbind : (slotBindCode ctx.null).Over P := slotBindCode_over Context.Over.null
  have hbanner := banner_over (over_literal (by decide) : Text.Over P "Callback slots")
  have hitems : ∀ s ∈ slots, s.symbol.Over P := hs
  have hsize : Text.Over P ("#define TETHER_SLOT_POOL " ++ toString poolSize) :=
    over_append.mpr ⟨over_literal (by decide), over_toString poolSize⟩
  unfold slotArena
  split
  · trivial
  · refine Code.over_seq.mpr (List.forall_mem_cons.mpr ⟨Code.over_ofLines.mpr ?_,
      List.forall_mem_cons.mpr ⟨?_, List.forall_mem_cons.mpr ⟨by simp, ?_⟩⟩⟩)
    · exact List.forall_mem_append.mpr ⟨hbanner, by simpa using hsize⟩
    · simp (disch := decide) [over_literal]
    · refine List.forall_mem_cons.mpr ⟨Code.over_blockOf.mpr ⟨over_literal (by decide), ?_, trivial⟩, ?_⟩
      · refine Code.over_ofLines.mpr (List.forall_mem_append.mpr ⟨?_, ?_⟩)
        · exact List.forall_mem_map.mpr hitems
        · exact List.forall_mem_singleton.mpr (over_literal (by decide))
      · simp (disch := decide) [over_literal, hbind]

theorem supportFunction_over {signature : String} {body : Code} :
    (supportFunction signature body).Over P ↔ Text.Over P signature ∧ body.Over P := by
  simp (disch := decide) [supportFunction, over_literal]

theorem supportCode_over {null : String} (hnull : Text.Over P null) : (supportCode null).Over P := by
  unfold supportCode
  simp (disch := decide) [supportFunction_over, over_literal, hnull]

theorem structPrototypes_over {struct : String} (hs : Text.Over P struct) :
    ∀ l ∈ structPrototypes struct, l.Over P := by
  unfold structPrototypes converterParams
  simp (disch := decide) [Symbol.Over, over_literal, hs]

theorem prototypesCode_over {structs : List StructBinding} (hs : ∀ s ∈ structs, s.Over P) :
    (prototypesCode structs).Over P := by
  have hprototypes : ∀ l ∈ structs.flatMap fun s => structPrototypes s.native, l.Over P := by
    intro l hl
    obtain ⟨s, hmem, hl⟩ := List.mem_flatMap.mp hl
    exact structPrototypes_over (hs s hmem).1 l hl
  unfold prototypesCode
  split
  · trivial
  · have hbanner := sectionBanner_over (over_literal (by decide) : Text.Over P "Prototypes")
    exact Code.over_seq.mpr (List.forall_mem_cons.mpr ⟨hbanner, List.forall_mem_cons.mpr
      ⟨Code.over_ofLines.mpr hprototypes, by simp⟩⟩)

theorem metatableLines_over {s : StructBinding} (hs : s.Over P) : ∀ l ∈ metatableLines s, l.Over P := by
  have hnative := hs.1
  have hmetatable := hs.2.2
  unfold metatableLines
  split <;> simp (disch := decide) [metamethod, popOne, Symbol.Over, over_literal, hnative, hmetatable]

theorem metatablesCode_over {structs : List StructBinding} (hs : ∀ s ∈ structs, s.Over P) :
    (metatablesCode structs).Over P := by
  have hlines : ∀ l ∈ structs.flatMap metatableLines, l.Over P := by
    intro l hl
    obtain ⟨s, hmem, hl⟩ := List.mem_flatMap.mp hl
    exact metatableLines_over (hs s hmem) l hl
  have hstate : Text.Over P "lua_State* L" := over_literal (by decide)
  unfold metatablesCode
  split
  · trivial
  · have hbanner := sectionBanner_over (over_literal (by decide) : Text.Over P "Metatables")
    exact Code.over_seq.mpr (List.forall_mem_cons.mpr ⟨hbanner, List.forall_mem_cons.mpr
      ⟨Code.over_blockOf.mpr ⟨⟨over_literal (by decide), trivial, hstate⟩, Code.over_ofLines.mpr hlines,
        trivial⟩, by simp⟩⟩)

theorem entryPointName_over {ctx : Context} (h : ctx.Over P) :
    Text.Over P ctx.naming.entryPointName := by
  have hmodule : Text.Over P ctx.naming.module := h.naming _ (by simp [Naming.texts])
  have hhome := h.metatableHome
  unfold Naming.entryPointName
  split
  · rename_i name hname
    exact h.naming name (by simp [Naming.texts, hname])
  · split <;> simp (disch := decide) [over_literal, hmodule, hhome]

theorem entryPointCode_over {ctx : Context} {b : Bindings} (h : ctx.Over P) (hb : b.Over P) :
    (entryPointCode ctx b).Over P := by
  have hmacro : Text.Over P ctx.manifest.output.exportMacro := h.output _ (by simp [Output.texts])
  have hlinkage : Text.Over P ((if ctx.isCpp then "extern \"C\" " else "") ++
      ctx.manifest.output.exportMacro) := by
    refine over_append.mpr ⟨?_, hmacro⟩
    split <;> exact over_literal (by decide)
  have hentry : (Symbol.entryPoint ctx.naming.entryPointName).Over P := entryPointName_over h
  have htable : moduleTable.Over P := moduleTable_over
  have hcalls : ∀ l ∈ registrarCalls b, l.Over P := by
    intro l hl
    obtain ⟨r, hr, rfl⟩ := List.mem_map.mp hl
    have hr : r.Over P := by
      rcases List.mem_append.mp hr with hr | hr
      · obtain ⟨e, he, rfl⟩ := List.mem_map.mp hr
        exact hb.enums e he
      · obtain ⟨c, hc, rfl⟩ := List.mem_map.mp hr
        exact hb.consts c hc
    simp [hr, htable]
  have hmetatables : ∀ l ∈ metatableCall b, l.Over P := by
    unfold metatableCall
    split <;> simp [Symbol.Over]
  have hbanner := sectionBanner_over (over_literal (by decide) : Text.Over P "Entry point")
  unfold entryPointCode
  refine Code.over_seq.mpr (List.forall_mem_cons.mpr ⟨hbanner, List.forall_mem_singleton.mpr ?_⟩)
  cases ctx.manifest.output.registration with
  | module =>
    refine Code.over_blockOf.mpr ⟨⟨over_append.mpr ⟨hlinkage, over_literal (by decide)⟩, hentry,
      over_literal (by decide)⟩, Code.over_ofLines.mpr ?_, trivial⟩
    refine List.forall_mem_append.mpr ⟨List.forall_mem_append.mpr ⟨List.forall_mem_append.mpr
      ⟨hmetatables, ?_⟩, hcalls⟩, ?_⟩ <;>
    simp (disch := decide) [Symbol.Over, over_literal]
  | intoTable =>
    refine Code.over_blockOf.mpr ⟨⟨over_append.mpr ⟨hlinkage, over_literal (by decide)⟩, hentry,
      over_literal (by decide)⟩, Code.over_ofLines.mpr ?_, trivial⟩
    refine List.forall_mem_append.mpr ⟨List.forall_mem_append.mpr ⟨List.forall_mem_append.mpr
      ⟨?_, hmetatables⟩, ?_⟩, hcalls⟩ <;>
    simp (disch := decide) [Symbol.Over, popOne, over_literal, htable]

end

/-! ## The two sections with braces of their own -/

section

variable {ctx : Context} (h : ctx.Over NoBrace)

include h

omit h in
/-- The headers of the library are included between two lines that open and close a block for a C++ compiler
only. -/
theorem closed_libraryIncludes :
    Closed (directives
      ["#ifdef __cplusplus", "extern \"C\" \x7b", "#endif",
       "#include <lua.h>", "#include <lauxlib.h>",
       "#ifdef __cplusplus", "\x7d", "#endif",
       "#include <string.h>", "#include <stdlib.h>", "#include <stdbool.h>",
       "#include <stdio.h>"]).text := by
  rw [closed_iff]
  decide +kernel

theorem prelude_closed : Closed (prelude ctx).text := by
  have closed {c : Code} (hc : c.Over NoBrace) : Closed c.text := Code.closed_text hc.braced
  have hmodule : Text.Over NoBrace ctx.naming.module := h.naming _ (by simp [Naming.texts])
  have hmacro : Text.Over NoBrace ctx.manifest.output.exportMacro :=
    h.output _ (by simp [Output.texts])
  have hincludes : ∀ header ∈ ctx.manifest.output.includes,
      Text.Over NoBrace (includeDirective header) := by
    intro header hheader
    have hheader : Text.Over NoBrace header := h.output _ (by simp [Output.texts, hheader])
    unfold includeDirective
    split <;> simp (disch := decide) [over_literal, hheader]
  have hsink : (errorSinkCode ctx.manifest.output.callbackErrorSink).Over NoBrace := by
    unfold errorSinkCode
    split
    · rename_i sink hsome
      have hsink : Text.Over NoBrace sink := h.output _ (by simp [Output.texts, hsome])
      simp (disch := decide) [over_literal, hsink]
    · simp (disch := decide) [over_literal]
  have hsupport : (supportCode ctx.null).Over NoBrace := supportCode_over Context.Over.null
  unfold prelude
  refine Code.closed_text_seq ?_
  simp only [List.forall_mem_cons]
  refine ⟨closed ?_, closed_libraryIncludes, closed ?_, closed ?_, closed ?_, closed ?_, closed ?_,
    closed ?_, closed hsink, closed ?_, closed ?_, closed ?_, closed hsupport, by simp⟩ <;>
  simp (disch := decide) [over_literal, hmodule, hmacro]
  exact hincludes

/-- The table of functions ends with an entry of null pointers. -/
theorem registrationCode_closed {b : Bindings} (hb : b.Over NoBrace) :
    Closed (registrationCode ctx b).text := by
  have closed {c : Code} (hc : c.Over NoBrace) : Closed c.text := Code.closed_text hc.braced
  have hextras : ∀ e ∈ ctx.manifest.output.extraRegistrations,
      Text.Over NoBrace e.name ∧ Text.Over NoBrace e.function := by
    intro e he
    have hmem : ∀ t ∈ [e.name, e.function], t ∈ ctx.manifest.output.texts := fun t ht =>
      List.mem_append_right _ (List.mem_flatMap.mpr ⟨e, he, ht⟩)
    exact ⟨h.output _ (hmem _ (by simp)), h.output _ (hmem _ (by simp))⟩
  have hentries : ∀ l ∈ b.functions.flatMap (functionEntries ctx.naming) ++
      (b.structs.map fun s => Line.registration s.scriptName (.constructor s.native)) ++
      (ctx.manifest.output.extraRegistrations.map fun e =>
        Line.registration e.name (.handWritten e.function)), l.Over NoBrace := by
    refine List.forall_mem_append.mpr ⟨List.forall_mem_append.mpr ⟨?_, ?_⟩, ?_⟩
    · intro l hl
      obtain ⟨f, hf, hl⟩ := List.mem_flatMap.mp hl
      obtain ⟨name, hname, rfl⟩ := List.mem_map.mp hl
      obtain ⟨hcName, hscript⟩ := hb.functions f hf
      exact ⟨registeredNames_over hscript hname, hcName⟩
    · exact List.forall_mem_map.mpr fun s hs => ⟨(hb.structs s hs).2.1, (hb.structs s hs).1⟩
    · exact List.forall_mem_map.mpr fun e he => hextras e he
  have hlast : Closed ("\x7b" ++ ctx.null ++ ", " ++ ctx.null ++ "\x7d") := by
    unfold Context.null
    split <;> exact fun _ => rfl
  have htable : (Head.table "static const luaL_Reg" .functionTable "").Over NoBrace :=
    ⟨over_literal (by decide), trivial, over_empty⟩
  have hbanner := sectionBanner_over (over_literal (by decide) : Text.Over NoBrace "Registration")
  unfold registrationCode
  refine Code.closed_text_seq ?_
  simp only [List.forall_mem_cons]
  refine ⟨closed hbanner, closed ?_, closed ?_, Code.closed_text ?_, closed (by simp), by simp⟩
  · refine Code.over_ofLines.mpr (List.forall_mem_map.mpr fun e he => ?_)
    exact ⟨over_literal (by decide), (hextras e he).2, over_literal (by decide)⟩
  · split
    · trivial
    · simp
  · rw [Code.blockOf, Code.events, Code.events_ofLines, List.map_append]
    refine List.forall_mem_cons.mpr ⟨.opening (Head.render_over htable), List.forall_mem_append.mpr
      ⟨List.forall_mem_append.mpr ⟨?_, ?_⟩, List.forall_mem_singleton.mpr (.closing trivial)⟩⟩
    · exact List.forall_mem_map.mpr fun l hl => .line (hentries l hl)
    · exact List.forall_mem_singleton.mpr hlast

end

/-! ## Every step on every page -/

/-- Written on any page, the step closes no block that the page does not have open; and if it comes to an
end, the page has as many open as before. -/
def Draft.KeepsLevel {α : Type} (m : Draft α) : Prop :=
  ∀ (s : Scratch) (p : Page), p.NeverBelow (m s).1.events ∧
    ((m s).1.fault? = none → (p.putAll (m s).1.events).level = p.level)

/-- The same of code, which always comes to an end. -/
def Code.KeepsLevel (c : Code) : Prop :=
  ∀ p : Page, p.NeverBelow c.events ∧ (p.putAll c.events).level = p.level

theorem Code.keepsLevel (c : Code) : c.KeepsLevel := by
  intro p
  have hlevel := c.levelAfter_events p.level
  exact ⟨Page.neverBelow_iff.mpr ⟨p.level, hlevel⟩, by rw [Page.putAll_eq hlevel]⟩

theorem Category.over_anything : ∀ c : Category, c.Over Anything
  | .structValue name _ | .structPointer name _ _ | .enum name => Text.over_anything name
  | .pointer pointee _ => pointee.over_anything
  | .fixedArray elem _ => elem.over_anything
  | .void | .bool | .integer _ | .float _ | .cstring | .handle _ | .callback .. | .unknown => trivial

theorem Place.over_anything (p : Place) : p.Over Anything := by
  induction p with
  | name s => exact Text.over_anything s
  | element p k ih | member p k ih | memberOf p k ih => exact ⟨ih, Text.over_anything k⟩
  | target p ih => exact ih
  | through base path => exact ⟨Text.over_anything base, Text.over_anything path⟩

theorem StackIndex.over_anything (i : StackIndex) : i.Over Anything := by
  cases i with
  | held name => exact Text.over_anything name
  | slot _ | top | belowTop => trivial

theorem Memo.over_anything (m : Memo) : m.Over Anything := fun e _ => e.2.over_anything

theorem Context.over_anything (ctx : Context) : ctx.Over Anything :=
  ⟨fun t _ => Text.over_anything t, fun t _ => Text.over_anything t, fun t _ => Text.over_anything t,
    fun t _ => Text.over_anything t⟩

/-- A step that stays in the alphabet of all characters. -/
theorem Draft.Stays.keepsLevel {α : Type} {Q : α → Prop} {m : Draft α} (hm : m.Stays Anything Q) :
    m.KeepsLevel := by
  intro s p
  have hout := (hm s s.memo.over_anything).1
  rcases hrun : (m s).1 with ⟨value, code⟩ | ⟨fault, events⟩ <;> rw [hrun] at hout
  · exact ⟨(code.keepsLevel p).1, fun _ => (code.keepsLevel p).2⟩
  · exact ⟨Page.neverBelow_iff.mpr (hout.2 p.level), fun h => by cases h⟩

/-! ## The whole file -/

/-- What the file of a module is put together from: its sections, and the chunks of its declarations. -/
def moduleParts (i : Interface) (m : Manifest) : List Code :=
  let (ctx, slots, b) := Classifying.fresh (bindAll i m)
  [prelude ctx, prototypesCode b.structs, slotArena ctx slots, sectionBanner "Bindings"] ++ b.chunks ++
    [metatablesCode b.structs, registrationCode ctx b, entryPointCode ctx b]

theorem generate_code_eq (i : Interface) (m : Manifest) :
    (generate i m).code = String.join ((moduleParts i m).map fun c => c.page.text) := by
  unfold generate moduleParts
  rcases Classifying.fresh (bindAll i m) with ⟨ctx, slots, b⟩
  have htext : ∀ c : Code, c.page.text = c.text := fun _ => rfl
  simp only [htext, cFile, Code.text_seq, List.map_cons, List.map_append, List.map_nil,
    String.join_cons, String.join_append, String.append_assoc, String.join_nil, String.append_empty]

/-- The parts of a file without braces in its names are closed. -/
theorem moduleParts_closed {i : Interface} {m : Manifest}
    (h : ∀ t ∈ i.texts ++ m.texts, Text.Over NoBrace t) :
    ∀ c ∈ moduleParts i m, Closed c.text := by
  obtain ⟨hi, hm⟩ := List.forall_mem_append.mp h
  have hrun := (bindAll_stays hi hm {} Memo.over_empty).1
  unfold moduleParts Classifying.fresh
  rcases ((bindAll i m).run {}).1 with ⟨ctx, slots, b⟩
  obtain ⟨hctx, hslots, hb⟩ := hrun
  have closed {c : Code} (hc : c.Over NoBrace) : Closed c.text := Code.closed_text hc.braced
  have hbanner := sectionBanner_over (over_literal (by decide) : Text.Over NoBrace "Bindings")
  refine List.forall_mem_append.mpr ⟨List.forall_mem_append.mpr ⟨?_, fun c hc => closed (hb.chunks c hc)⟩,
    ?_⟩
  · simp only [List.forall_mem_cons]
    exact ⟨prelude_closed hctx, closed (prototypesCode_over hb.structs), closed (slotArena_over hslots),
      closed hbanner, by simp⟩
  · simp only [List.forall_mem_cons]
    exact ⟨closed (metatablesCode_over hb.structs), registrationCode_closed hctx hb,
      closed (entryPointCode_over hctx hb), by simp⟩

/-- **Generated braces nest**, whatever failed on the way. Without braces in the strings of the module those
of its code are balanced. With any strings, the code is put together from parts that each begin and end
without an open block, and no step that writes them closes a block that is not open, or leaves one open unless
it breaks off. -/
theorem generated_braces_nest (i : Interface) (m : Manifest) :
    ((∀ t ∈ i.texts ++ m.texts, Text.Over NoBrace t) → Balanced (generate i m).code) ∧
      (generate i m).code = String.join ((moduleParts i m).map fun c => c.page.text) ∧
      (∀ c ∈ moduleParts i m, c.KeepsLevel ∧ c.page.level = 0) ∧
      ∀ ctx : Context,
        (∀ s, (bindStruct ctx s).KeepsLevel) ∧
        (∀ e, (bindEnum ctx e).KeepsLevel) ∧
        (∀ g position, (bindConsts ctx g position).KeepsLevel) ∧
        (∀ f names, (wrapFunction ctx f names).KeepsLevel) ∧
        (∀ spelling source, (push ctx spelling source).KeepsLevel) ∧
        (∀ mode spelling place index, (read ctx mode spelling place index).KeepsLevel) ∧
        (∀ owner field, (trampolines ctx owner field).KeepsLevel) := by
  refine ⟨fun h => ?_, generate_code_eq i m, fun c _ => ⟨c.keepsLevel, ?_⟩, fun ctx => ?_⟩
  · rw [generate_code_eq]
    refine (closed_join fun t ht => ?_).balanced
    obtain ⟨c, hc, rfl⟩ := List.mem_map.mp ht
    exact moduleParts_closed h c hc
  · exact (c.keepsLevel {}).2
  · have h := ctx.over_anything
    have every (t : String) : Text.Over Anything t := Text.over_anything t
    refine ⟨fun s => (bindStruct_stays h fun t _ => every t).keepsLevel,
      fun e => (bindEnum_stays fun t _ => every t).keepsLevel,
      fun g position => (bindConsts_stays (fun t _ => every t) position).keepsLevel,
      fun f names => (wrapFunction_stays h (fun t _ => every t) ⟨every _, every _⟩).keepsLevel,
      fun spelling source => (push_writes h (every _) source.over_anything).keepsLevel,
      fun mode spelling place index =>
        (read_writes h (every _) place.over_anything index.over_anything).keepsLevel,
      fun owner field => (trampolines_writes h (every _) ⟨every _, every _⟩).keepsLevel⟩

/-- A module in which a struct and a function fail inside of blocks that they have opened. -/
theorem generated_braces_nest_ragged :
    (∀ t ∈ ragged.texts ++ ({} : Manifest).texts, Text.Over NoBrace t) ∧
      Balanced (generate ragged {}).code := by
  have hplain : ((ragged.texts ++ ({} : Manifest).texts).all isPlainText) = true := by decide +kernel
  have hnone : ∀ t ∈ ragged.texts ++ ({} : Manifest).texts, Text.Over NoBrace t := fun t ht =>
    over_literal (List.all_eq_true.mp hplain t ht)
  exact ⟨hnone, (generated_braces_nest ragged {}).1 hnone⟩

end LuaGlue
