import LuaGlue.Generate
import LuaGlue.Proofs.Userdata.Alphabet

/-!
# A run in an alphabet

All pieces of a run — the chunks of declarations, the comments in place of those that were left out, the names
that are registered, the slots of callbacks — stay in an alphabet that the strings of the interface and of
the manifest are in (`bindAll_stays`), and so do the sections of the file that are made from them.
-/

set_option autoImplicit false

namespace LuaGlue

open Draft Text

variable {P : Char → Prop} [Alphabet P]

/-! ## Enums and constants -/

theorem integerLiteral_over {item : EnumItem} (hi : Text.Over P item.name) :
    StaysOrFails P (Text.Over P) (integerLiteral item) := by
  unfold integerLiteral
  dsimp only
  split
  · exact (over_literal (by decide) : Text.Over P "(-9223372036854775807LL - 1)")
  · split
    · exact over_toString_int item.value
    · split
      · exact over_append.mpr ⟨over_append.mpr ⟨over_literal (by decide), over_toString_int item.value⟩,
          over_literal (by decide)⟩
      · exact hi

theorem memberLines_writes {target : StackIndex} {name : String → String} (ht : target.Over P)
    (hname : ∀ item, Text.Over P item → Text.Over P (name item)) {items : List EnumItem}
    (hitems : ∀ item ∈ items, Text.Over P item.name) : (memberLines target name items).Writes P := by
  induction items with
  | nil => exact .pure trivial
  | cons item rest ih =>
    obtain ⟨hitem, hrest⟩ := List.forall_mem_cons.mp hitems
    have hmember := hname item.name hitem
    refine Stays.bind (.ofExcept (integerLiteral_over hitem)) fun literal hliteral => ?_
    refine .andThen (.lines ?_) fun _ => .andThen (ih hrest) fun _ => .pure trivial
    simp [hliteral, ht, hmember]

theorem registrar_writes {α : Type} {f : Symbol} {body : Draft α} (hf : f.Over P)
    (hb : body.Writes P) : (registrar f body).Writes P := by
  have hparams : Text.Over P "lua_State* L, int t" := over_literal (by decide)
  exact .andThen (.block ⟨over_literal (by decide), hf, hparams⟩ hb) fun _ =>
    .andThen (.line trivial) fun _ => .pure trivial

theorem moduleTable_over : moduleTable.Over P := (over_literal (by decide) : Text.Over P "t")

variable {ctx : Context}

theorem bindEnum_stays {e : EnumDecl} (he : ∀ t ∈ e.texts, Text.Over P t) :
    (bindEnum ctx e).Stays P fun b => b.registrar.Over P := by
  have hname : Text.Over P e.name := he _ List.mem_cons_self
  have hscript : Text.Over P (ctx.naming.typeName e.name) := typeName_over hname
  have hitems : ∀ item ∈ e.items, Text.Over P item.name := fun item hitem =>
    he _ (List.mem_cons_of_mem _ (List.mem_map_of_mem hitem))
  have htable : moduleTable.Over P := moduleTable_over
  have htarget : StackIndex.belowTop.Over P := trivial
  have hmembers : (memberLines .belowTop (ctx.naming.memberName e.name) e.items).Writes P :=
    memberLines_writes htarget (fun item hitem => memberName_over e.name hitem) hitems
  refine .andThen (registrar_writes hname (.andThen (.line (by simp)) fun _ => ?_)) fun _ => .pure hname
  refine .andThen hmembers fun _ => .andThen (.line ?_) fun _ => .pure trivial
  simp [htable, hscript]

theorem bindConsts_stays {g : ConstGroup} (hg : ∀ t ∈ g.texts, Text.Over P t) (position : Nat) :
    (bindConsts ctx g position).Stays P fun b => b.registrar.Over P := by
  have hitems : ∀ item ∈ g.items, Text.Over P item.name := fun item hitem =>
    hg _ (List.mem_map_of_mem hitem)
  exact .andThen (registrar_writes trivial
    (memberLines_writes moduleTable_over (fun item hitem => constName_over hitem) hitems)) fun _ =>
    .pure trivial

/-! ## Chunks -/

omit [Alphabet P] in
/-- What a chunk holds, or why there is none, is in the alphabet that the step stays in. -/
theorem chunk_stays {α : Type} {Q : α → Prop} {m : Draft α} (hm : m.Stays P Q) :
    (chunk m).Stays P (StaysOrFails P fun r => Q r.1 ∧ r.2.Over P) := by
  intro memo hmemo
  obtain ⟨hout, hmemo'⟩ := hm ⟨memo, 0⟩ hmemo
  refine ⟨?_, hmemo'⟩
  change StaysOrFails P _ (m ⟨memo, 0⟩).1.toExcept
  rcases hrun : (m ⟨memo, 0⟩).1 with ⟨value, code⟩ | ⟨fault, events⟩ <;> rw [hrun] at hout
  · exact hout
  · exact hout.1

omit [Alphabet P] in
theorem mem_breakCommentEnds {c : Char} {cs : List Char} (hc : c ∈ breakCommentEnds cs) :
    c ∈ cs ∨ c = ' ' := by
  induction cs using breakCommentEnds.induct with
  | case1 rest ih =>
    simp only [breakCommentEnds, List.mem_cons] at hc ⊢
    tauto
  | case2 d rest hother ih =>
    rw [breakCommentEnds] at hc
    · simp only [List.mem_cons] at hc ⊢
      tauto
    · exact hother
  | case3 => exact absurd hc List.not_mem_nil

theorem problemComment_over {p : Problem} (hn : Text.Over P p.name) (hf : p.fault.Over P) :
    (problemComment p).Over P := by
  have hmessage : Text.Over P (String.ofList (breakCommentEnds p.fault.message.toList)) := by
    refine over_ofList.mpr fun c hc => ?_
    rcases mem_breakCommentEnds hc with hc | rfl
    · exact Fault.message_over hf c hc
    · exact Alphabet.plain ' ' (by decide) (by decide) (by decide)
  unfold problemComment
  simp (disch := decide) [over_literal, hn, hmessage]

/-! ## Structs -/

structure Settled.Over (P : Char → Prop) (r : Settled) : Prop where
  written : ∀ e ∈ r.written, e.2.1.Over P ∧ e.2.2.Over P
  failed : ∀ e ∈ r.failed, Text.Over P e.1 ∧ e.2.Over P

theorem structRound_stays (h : ctx.Over P) {structs : List StructDecl}
    (hs : ∀ s ∈ structs, ∀ t ∈ s.texts, Text.Over P t) :
    (structRound ctx structs).Stays P (Settled.Over P) := by
  induction structs with
  | nil => exact .pure ⟨by simp, by simp⟩
  | cons s rest ih =>
    obtain ⟨hfirst, hrest⟩ := List.forall_mem_cons.mp hs
    rw [structRound]
    split
    · exact ih hrest
    · refine (chunk_stays (bindStruct_stays h hfirst)).bind fun answer hanswer => ?_
      cases answer with
      | ok r =>
        exact (ih hrest).bind fun others hothers =>
          .pure ⟨List.forall_mem_cons.mpr ⟨hanswer, hothers.written⟩, hothers.failed⟩
      | error fault =>
        have hname : Text.Over P s.name := StructDecl.over_name hfirst
        exact (ih hrest).bind fun others hothers =>
          .pure ⟨hothers.written, List.forall_mem_cons.mpr ⟨⟨hname, hanswer⟩, hothers.failed⟩⟩

theorem settleWithin_stays (rounds : Nat) : ∀ {ctx : Context} {failed : List (String × Fault)},
    ctx.Over P → (∀ e ∈ failed, Text.Over P e.1 ∧ e.2.Over P) →
    (settleWithin rounds ctx failed).Stays P fun r => r.1.Over P ∧ r.2.Over P := by
  induction rounds with
  | zero => exact fun h hfailed => .pure ⟨h, by simp, hfailed⟩
  | succ rounds ih =>
    intro ctx failed h hfailed
    rw [settleWithin]
    refine (structRound_stays h fun s hs => h.struct hs).bind fun r hr => ?_
    split
    · exact .pure ⟨h, hr.written, hfailed⟩
    · exact ih (h.unbind _) (List.forall_mem_append.mpr ⟨hfailed, hr.failed⟩)

/-! ## Declarations in order -/

/-- What was written is over `P`. -/
structure Bindings.Over (P : Char → Prop) (b : Bindings) : Prop where
  chunks : ∀ c ∈ b.chunks, c.Over P
  functions : ∀ f ∈ b.functions, f.names.Over P
  structs : ∀ s ∈ b.structs, s.Over P
  enums : ∀ e ∈ b.enums, e.registrar.Over P
  consts : ∀ c ∈ b.consts, c.registrar.Over P

omit [Alphabet P] in
theorem Bindings.over_empty : ({} : Bindings).Over P :=
  ⟨by simp, by simp, by simp, by simp, by simp⟩

namespace Bindings.Over

variable {b : Bindings} (h : b.Over P)

include h

omit [Alphabet P] in
theorem withChunk {code : Code} (hc : code.Over P) : { b with chunks := b.chunks ++ [code] }.Over P :=
  ⟨List.forall_mem_append.mpr ⟨h.chunks, List.forall_mem_singleton.mpr hc⟩, h.functions, h.structs,
    h.enums, h.consts⟩

theorem leaveOut {name : String} {fault : Fault} (hn : Text.Over P name) (hf : fault.Over P) :
    (b.leaveOut name fault).Over P := by
  have hchunk := h.withChunk (problemComment_over (p := ⟨name, fault⟩) hn hf)
  exact ⟨hchunk.chunks, h.functions, h.structs, h.enums, h.consts⟩

omit [Alphabet P] in
theorem addFunction {f : FunctionBinding} (hf : f.names.Over P) : (b.addFunction f).Over P :=
  ⟨h.chunks, List.forall_mem_append.mpr ⟨h.functions, List.forall_mem_singleton.mpr hf⟩, h.structs,
    h.enums, h.consts⟩

omit [Alphabet P] in
theorem addStruct {s : StructBinding} (hs : s.Over P) : (Bindings.addStruct s b).Over P :=
  ⟨h.chunks, h.functions, List.forall_mem_append.mpr ⟨h.structs, List.forall_mem_singleton.mpr hs⟩,
    h.enums, h.consts⟩

omit [Alphabet P] in
theorem addEnum {e : EnumBinding} (he : e.registrar.Over P) : (Bindings.addEnum e b).Over P :=
  ⟨h.chunks, h.functions, h.structs,
    List.forall_mem_append.mpr ⟨h.enums, List.forall_mem_singleton.mpr he⟩, h.consts⟩

omit [Alphabet P] in
theorem addConsts {c : ConstBinding} (hc : c.registrar.Over P) : (Bindings.addConsts c b).Over P :=
  ⟨h.chunks, h.functions, h.structs, h.enums,
    List.forall_mem_append.mpr ⟨h.consts, List.forall_mem_singleton.mpr hc⟩⟩

end Bindings.Over

theorem Progress.conclude_over {α : Type} {Q : α → Prop} {p : Progress} {name : String}
    {record : α → Bindings → Bindings} {answer : Except Fault (α × Code)} (hp : p.bindings.Over P)
    (hn : Text.Over P name) (hrecord : ∀ a (b : Bindings), Q a → b.Over P → (record a b).Over P)
    (ha : StaysOrFails P (fun r => Q r.1 ∧ r.2.Over P) answer) :
    (p.conclude name record answer).bindings.Over P := by
  cases answer with
  | ok r => exact (hrecord r.1 p.bindings ha.1 hp).withChunk ha.2
  | error fault => exact hp.leaveOut hn ha

theorem Progress.addStruct_over {p : Progress} {settled : Settled} {s : StructDecl}
    (hp : p.bindings.Over P) (hsettled : settled.Over P) (hs : Text.Over P s.name) :
    (p.addStruct settled s).bindings.Over P := by
  unfold Progress.addStruct Progress.meet
  cases p.seen.contains s.name with
  | true => exact hp
  | false =>
    dsimp only
    split
    · rename_i fault hfailed
      obtain ⟨before, after, heq, -⟩ := List.lookup_eq_some_iff.mp hfailed
      exact hp.leaveOut hs (hsettled.failed (s.name, fault) (by rw [heq]; simp)).2
    · split
      · rename_i binding code hwritten
        obtain ⟨before, after, heq, -⟩ := List.lookup_eq_some_iff.mp hwritten
        have hmade := hsettled.written (s.name, binding, code) (by rw [heq]; simp)
        exact (hp.addStruct hmade.1).withChunk hmade.2
      · exact hp

theorem Progress.addEnum_stays {p : Progress} {e : EnumDecl} (hp : p.bindings.Over P)
    (he : ∀ t ∈ e.texts, Text.Over P t) :
    (p.addEnum ctx e).Stays P fun p' => p'.bindings.Over P := by
  have hname : Text.Over P e.name := he _ List.mem_cons_self
  unfold Progress.addEnum Progress.meet
  split
  · exact .pure hp
  · cases p.seen.contains e.name with
    | true => exact .pure hp
    | false =>
      exact (chunk_stays (bindEnum_stays he)).bind fun answer hanswer =>
        .pure (Progress.conclude_over hp hname (fun _ _ ha hb => hb.addEnum ha) hanswer)

variable (h : ctx.Over P)

include h

theorem Progress.addDecl_stays {p : Progress} {settled : Settled} {plan : OverloadPlan}
    {position : Nat} {d : Declaration} (hp : p.bindings.Over P) (hsettled : settled.Over P)
    (hplan : ∀ e ∈ plan.entries, StaysOrFails P (FunctionNames.Over P) e.2)
    (hd : ∀ t ∈ d.texts, Text.Over P t) :
    (p.addDecl ctx settled plan position d).Stays P fun p' => p'.bindings.Over P := by
  cases d with
  | struct s => exact .pure (Progress.addStruct_over hp hsettled (StructDecl.over_name hd))
  | enum e => exact Progress.addEnum_stays hp hd
  | consts g =>
    have hname : Text.Over P ("consts#" ++ toString position) :=
      over_append.mpr ⟨over_literal (by decide), over_toString position⟩
    exact (chunk_stays (bindConsts_stays hd position)).bind fun answer hanswer =>
      .pure (Progress.conclude_over hp hname (fun _ _ ha hb => hb.addConsts ha) hanswer)
  | function f =>
    have hname : Text.Over P f.name := hd _ List.mem_cons_self
    have hnames {entry : Except Fault FunctionNames} (hentry : plan.names? position = some entry) :
        StaysOrFails P (FunctionNames.Over P) entry := by
      obtain ⟨before, after, heq, -⟩ := List.lookup_eq_some_iff.mp hentry
      exact hplan (position, entry) (by rw [heq]; simp)
    unfold Progress.addDecl
    dsimp only
    split
    · exact .pure hp
    · rename_i fault hentry
      have hfault : fault.Over P := hnames hentry
      exact .pure (hp.leaveOut hname hfault)
    · rename_i names hentry
      have hgiven : names.Over P := hnames hentry
      exact (chunk_stays (wrapFunction_stays h hd hgiven)).bind fun answer hanswer =>
        .pure (Progress.conclude_over hp hname (fun _ _ ha hb => hb.addFunction ha) hanswer)

theorem Progress.addDecls_stays {settled : Settled} {plan : OverloadPlan}
    (hsettled : settled.Over P)
    (hplan : ∀ e ∈ plan.entries, StaysOrFails P (FunctionNames.Over P) e.2) :
    ∀ {decls : List Declaration} {p : Progress} {position : Nat}, p.bindings.Over P →
      (∀ d ∈ decls, ∀ t ∈ d.texts, Text.Over P t) →
      (Progress.addDecls ctx settled plan p position decls).Stays P fun p' => p'.bindings.Over P := by
  intro decls
  induction decls with
  | nil => exact fun hp _ => .pure hp
  | cons d rest ih =>
    intro p position hp hd
    obtain ⟨hfirst, hrest⟩ := List.forall_mem_cons.mp hd
    exact (addDecl_stays h hp hsettled hplan hfirst).bind fun p' hp' => ih hp' hrest

/-! ## A whole run -/

def CallbackSlot.Over (P : Char → Prop) (s : CallbackSlot) : Prop :=
  Text.Over P s.owner ∧ Text.Over P s.field

omit [Alphabet P] in
theorem bindableFields_stays {owner : String} (ho : Text.Over P owner) {fields : List Field}
    (hf : ∀ f ∈ fields, f.Over P) :
    (bindableFields ctx owner fields).Stays P fun slots => ∀ s ∈ slots, s.Over P := by
  induction fields with
  | nil => exact .pure (by simp)
  | cons f rest ih =>
    obtain ⟨hfirst, hrest⟩ := List.forall_mem_cons.mp hf
    refine h.categoryOf.bind fun c _ => (ih hrest).bind fun slots hslots => .pure ?_
    split
    · exact List.forall_mem_cons.mpr ⟨⟨ho, hfirst.1⟩, hslots⟩
    · exact hslots

omit [Alphabet P] in
theorem collectSlots_stays {structs : List StructDecl}
    (hs : ∀ s ∈ structs, ∀ t ∈ s.texts, Text.Over P t) :
    (collectSlots ctx structs).Stays P fun slots => ∀ s ∈ slots, s.Over P := by
  induction structs with
  | nil => exact .pure (by simp)
  | cons s rest ih =>
    obtain ⟨hfirst, hrest⟩ := List.forall_mem_cons.mp hs
    exact (bindableFields_stays h (StructDecl.over_name hfirst) (StructDecl.over_fields hfirst)).bind
      fun slots hslots => (ih hrest).bind fun others hothers =>
        .pure (List.forall_mem_append.mpr ⟨hslots, hothers⟩)

omit h in
/-- **All that a run yields is in the alphabet of the module's strings.** -/
theorem bindAll_stays {i : Interface} {m : Manifest} (hi : ∀ t ∈ i.texts, Text.Over P t)
    (hm : ∀ t ∈ m.texts, Text.Over P t) :
    (bindAll i m).Stays P fun r => r.1.Over P ∧ (∀ s ∈ r.2.1, s.Over P) ∧ r.2.2.Over P := by
  have hdecls : ∀ d ∈ i.decls, ∀ t ∈ d.texts, Text.Over P t := fun d hd t ht =>
    hi t (Interface.texts_of_decl hd t ht)
  have hstructs : ∀ s ∈ i.structs, ∀ t ∈ s.texts, Text.Over P t := fun s hs =>
    hdecls _ (declared_of_mem_structs hs)
  refine (Context.build_stays hi hm).bind fun initial hinitial => ?_
  refine (settleWithin_stays _ hinitial (by simp)).bind fun ⟨ctx, settled⟩ ⟨h, hsettled⟩ => ?_
  refine (OverloadPlan.build_stays h fun c hc => ?_).bind fun plan hplan => ?_
  · obtain ⟨⟨d, position⟩, hd, heq⟩ := List.mem_filterMap.mp hc
    have hd := hdecls d (List.fst_mem_of_mem_zipIdx hd)
    cases d with
    | function f =>
      dsimp only at heq
      split at heq
      · exact Option.some.inj heq ▸ hd _ List.mem_cons_self
      · cases heq
    | struct s => cases heq
    | enum e => cases heq
    | consts g => cases heq
  refine (collectSlots_stays h fun s hs => hstructs s (List.mem_filter.mp hs).1).bind
    fun slots hslots => ?_
  exact (Progress.addDecls_stays h hsettled hplan Bindings.over_empty hdecls).bind fun p hp =>
    .pure ⟨h, hslots, hp⟩

end LuaGlue
