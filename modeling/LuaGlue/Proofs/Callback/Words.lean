import LuaGlue.Proofs.Callback.Calls
import LuaGlue.Proofs.Marshal.Words

/-!
# Callbacks that raise nothing

An argument of a callback is pushed and its result is read outside of any protected call, so an error raised
there would leave the trampoline and the native code that has called it. Nothing that is written for a callback
field calls a function that raises one: it adds only names to what pushing and lenient reading write, and these
are made from the field's name and its owner's.
-/

set_option autoImplicit false

namespace LuaGlue

open Draft Text

variable {ctx : Context}

/-! ## Names of a callback field -/

section

variable {owner : String} {field : Field} (ho : Text.Foreign owner) (hf : field.Foreign)
  (hend : ¬ EndsInStem owner)

include ho hf hend

theorem not_names_field (lead : String) (hlead : leads lead = true) (hl : Text.Foreign lead) :
    ¬ Names auxiliaryStem.toList (lead ++ owner ++ "_" ++ field.name).toList :=
  not_names_joined hlead hl ho hf.name hend

theorem dispatcher_quiet : Text.Quiet (Symbol.dispatcher owner field.name).spelling :=
  quiet_of_not_names (not_names_field ho hf hend "tether_call_" (by decide) (foreign_literal (by decide)))

theorem slot_quiet : Text.Quiet (Symbol.slot owner field.name).spelling :=
  quiet_of_not_names (not_names_field ho hf hend "TETHER_SLOT_" (by decide) (foreign_literal (by decide)))

theorem trampoline_quiet (entry : Nat) : Text.Quiet (Symbol.trampoline owner field.name entry).spelling :=
  quiet_numbered
    (not_names_field ho hf hend "tether_trampoline_" (by decide) (foreign_literal (by decide))) entry

theorem trampolineTable_quiet : Text.Quiet (Symbol.trampolineTable owner field.name).spelling :=
  quiet_of_not_names
    (not_names_field ho hf hend "tether_trampolines_" (by decide) (foreign_literal (by decide)))

theorem callbackType_quiet : Text.Quiet (Symbol.callbackType owner field.name).spelling :=
  quiet_of_not_names (not_names_field ho hf hend "tether_fn_" (by decide) (foreign_literal (by decide)))

end

theorem callbackParam_quiet (i : Nat) : Text.Quiet (callbackParam i) :=
  (foreign_counted (by decide) i).quiet

/-! ## The signature -/

section

variable (h : ctx.Foreign)

include h

theorem signatureWithin_foreign (steps : Nat) : ∀ {spelling : String} {f : FunctionPointer},
    Text.Foreign spelling → signatureWithin ctx.manifest.types.aliases steps spelling = some f →
    Text.Foreign f.result ∧ ∀ p ∈ f.params, Text.Foreign p := by
  induction steps with
  | zero => exact fun _ hf => by cases hf
  | succ steps ih =>
    intro spelling f hs hf
    rw [signatureWithin] at hf
    split at hf
    · rename_i f' hparse
      split at hf
      · cases hf
      · obtain rfl := Option.some.inj hf
        exact ⟨CType.result_foreign hs hparse, CType.params_foreign hs hparse⟩
    · split at hf
      · obtain ⟨target, htarget, hf⟩ := Option.bind_eq_some_iff.mp hf
        exact ih (h.aliasTarget htarget) hf
      · cases hf
    · cases hf

theorem signature_foreign {owner : String} {field : Field} {f : FunctionPointer} (hfield : field.Foreign)
    (hf : signature ctx owner field = .ok f) :
    Text.Foreign f.result ∧ ∀ p ∈ f.params, Text.Foreign p := by
  unfold signature at hf
  split at hf
  · obtain rfl := Except.ok.inj hf
    exact signatureWithin_foreign h maxSignatureSteps hfield.type ‹_›
  · cases hf

/-! ## Dispatchers -/

theorem pushArguments_quiet {params : List String} (hparams : ∀ p ∈ params, Text.Foreign p) :
    ∀ i : Nat, (pushArguments ctx i params).RaisesNothing := by
  induction params with
  | nil => exact fun _ => .pure trivial
  | cons spelling rest ih =>
    intro i
    obtain ⟨hspelling, hrest⟩ := List.forall_mem_cons.mp hparams
    have hplace : Text.Quiet (Place.name (callbackParam i)).render := callbackParam_quiet i
    exact .andThen (push_quiet h hspelling hplace) fun _ => ih hrest (i + 1)

omit h in
theorem reportFailure_quiet {site : String} {message : Arg} (hs : Text.Quiet site)
    (hm : Text.Quiet message.render) : Text.Quiet (reportFailure site message).render := by
  simp [reportFailure, hs, hm]

theorem answerResult_quiet {result : String} (category : Category) (hr : Text.Foreign result) :
    (answerResult ctx result category).RaisesNothing := by
  have hret : Text.Quiet "ret" := quiet_literal (by decide)
  unfold answerResult
  split
  · refine .andThen (.line ?_) fun _ => .andThen (read_quiet h hr hret StackIndex.quiet_top) fun _ =>
      .lines ?_
    · exact Line.quiet_declare.mpr ⟨declareLocal_quiet hr hret, ctx.zeroInit_quiet category⟩
    · simp (disch := decide) [popOne, quiet_literal]
  · split
    · exact returnZero_quiet h hr
    · exact .pure trivial

theorem callClosure_quiet {site result : String} (category : Category) (nargs : Nat)
    (hs : Text.Quiet site) (hr : Text.Foreign result) :
    (callClosure ctx site result category nargs).RaisesNothing := by
  have hmessage : Text.Quiet
      ("msg != " ++ ctx.null ++ " ? msg : \"error object is not a string\"") := by
    simp (disch := decide) [quiet_open, quiet_end, quiet_literal, ctx.null_quiet]
  have hreport : Text.Quiet (reportFailure site (.text _)).render := reportFailure_quiet hs hmessage
  refine .andThen (.branch (Cond.quiet_callFails _ _) Code.quiet_done
    (.andThen (.lines ?_) fun _ => returnZero_quiet h hr)) fun _ => answerResult_quiet h category hr
  simp (disch := decide) [failureLines, popOne, quiet_literal, hreport]

theorem dispatcherBody_quiet {site result : String} {category : Category} {params : List String}
    (hs : Text.Quiet site) (hr : Text.Foreign result) (hparams : ∀ p ∈ params, Text.Foreign p) :
    (dispatcherBody ctx site result category params).RaisesNothing := by
  have zero := returnZero_quiet h hr
  have hnull := ctx.null_quiet
  unfold dispatcherBody
  dsimp only
  refine .andThen (.branch ?_ Code.quiet_done zero) fun _ => .andThen (.line ?_) fun _ => ?_
  · simp (disch := decide) [quiet_literal, hnull]
  · simp (disch := decide) [quiet_literal]
  refine .andThen (.branch ?_ Code.quiet_done (.andThen (.line ?_) fun _ => zero)) fun _ => ?_
  · simp (disch := decide) [quiet_literal]
  · exact reportFailure_quiet hs (quiet_literal (by decide))
  refine .andThen (.line ?_) fun _ => .andThen (pushArguments_quiet h hparams 0) fun _ => ?_
  · simp (disch := decide) [quiet_literal]
  refine .whenThen (.line ?_) (callClosure_quiet h category params.length hs hr)
  simp (disch := decide) [quiet_open, quiet_end, quiet_literal, hr.quiet]

/-! ## Trampolines -/

omit h in
theorem trampolineCode_quiet {owner result params : String} {field : Field} (category : Category)
    (ho : Text.Foreign owner) (hf : field.Foreign) (hend : ¬ EndsInStem owner)
    (hr : Text.Quiet result) (hp : Text.Quiet params) (nargs entry : Nat) :
    (trampolineCode owner field.name result category params nargs entry).Quiet := by
  have hstatic : Text.Quiet ("static " ++ result) := by
    simp (disch := decide) [quiet_end, quiet_literal, hr]
  have hdispatcher := dispatcher_quiet ho hf hend
  have hslot := slot_quiet ho hf hend
  have hargs (i : Nat) : Text.Quiet (callbackParam i) := callbackParam_quiet i
  refine Code.quiet_block.mpr ⟨?_, Code.quiet_line.mpr ⟨?_, Code.quiet_done⟩, ?_, Code.quiet_done⟩
  · exact Head.quiet_define.mpr ⟨hstatic, trampoline_quiet ho hf hend entry, hp⟩
  · split <;> simp [hdispatcher, hslot, hargs]
  · exact quiet_literal (by decide)

/-- **Nothing that is written for a callback field raises an error**, whether or not it comes to an end. -/
theorem trampolines_quiet {owner : String} {field : Field} (ho : Text.Foreign owner) (hf : field.Foreign)
    (hend : ¬ EndsInStem owner) : (trampolines ctx owner field).RaisesNothing := by
  refine (Quiet.ofExcept fun f => signature_foreign h hf).bind fun f ⟨hresult, hparams⟩ => ?_
  have hr : Text.Foreign (trimmed f.result) := hresult.trimmed
  have hdeclared : ∀ t ∈ f.params.mapIdx fun i spelling => declare spelling (callbackParam i),
      Text.Quiet t := by
    intro t ht
    obtain ⟨i, hi, rfl⟩ := List.mem_mapIdx.mp ht
    exact declare_quiet (hparams _ (List.getElem_mem hi)) (callbackParam_quiet i)
  generalize f.params.mapIdx (fun i spelling => declare spelling (callbackParam i)) = declared
    at hdeclared ⊢
  have hlist {ts : List String} (hts : ∀ t ∈ ts, Text.Quiet t) : Text.Quiet (", ".intercalate ts) :=
    (quiet_intercalate (by decide) (by decide) (quiet_literal (by decide))).mpr hts
  have hparamList : Text.Quiet (if declared.isEmpty then "void" else ", ".intercalate declared) := by
    split
    · exact quiet_literal (by decide)
    · exact hlist hdeclared
  have hresult : Text.Quiet ("static " ++ trimmed f.result) := by
    simp (disch := decide) [quiet_end, quiet_literal, hr.quiet]
  have hsite : Text.Quiet (owner ++ "." ++ field.name) := by
    simp (disch := decide) [quiet_open, quiet_between, quiet_literal, ho.quiet, hf.name.quiet]
  refine .bind (h.asked (trimmed f.result)) fun category _ => ?_
  refine .andThen (.block ?_ (dispatcherBody_quiet h hsite hr hparams)) fun _ => .write ?_
  · refine Head.quiet_define.mpr ⟨hresult, dispatcher_quiet ho hf hend, hlist ?_⟩
    exact List.forall_mem_cons.mpr ⟨quiet_literal (by decide), hdeclared⟩
  · generalize (if declared.isEmpty then "void" else ", ".intercalate declared) = params
      at hparamList ⊢
    have hblank : (Code.ofLines [.blank]).Quiet := Code.quiet_ofLines.mpr (by simp)
    have htype := callbackType_quiet ho hf hend
    simp only [Code.quiet_seq, List.forall_mem_cons, List.not_mem_nil, false_imp_iff, implies_true,
      and_true, List.forall_mem_map]
    refine ⟨hblank, fun entry _ => trampolineCode_quiet category ho hf hend hr.quiet hparamList _ entry,
      Code.quiet_ofLines.mpr ?_, Code.quiet_block.mpr ⟨?_, Code.quiet_ofLines.mpr ?_,
        quiet_literal (by decide), Code.quiet_done⟩, hblank⟩
    · simp [hr.quiet, htype, hparamList]
    · have hstatic : Text.Quiet ("static const " ++ (Symbol.callbackType owner field.name).spelling) := by
        simp (disch := decide) [quiet_end, quiet_literal, htype]
      exact Head.quiet_table.mpr ⟨hstatic, trampolineTable_quiet ho hf hend, quiet_literal (by decide)⟩
    · simp [trampoline_quiet ho hf hend]

end

/-! ## Their text -/

/-- The text of a step that raises nothing, at any level. -/
theorem Draft.Quiet.text {m : Draft Unit} (hm : m.RaisesNothing) {s : Scratch}
    (hs : s.memo.About Text.Foreign) (level : Nat) : Text.Quiet (layOut level (m s).1.events) :=
  quiet_layOut (hm s hs).1.events level

/-- A bound struct, and a tuple of two of them. -/
def posesContext : Context :=
  Classifying.fresh
    (Context.build
      { decls := [.struct ⟨"Pose", [⟨"angle", "float"⟩], []⟩] }
      { naming := { module := "scene" }, types := { tuples := [("Poses", ["from:Pose", "to:Pose"])] } })

theorem posesContext_foreign : posesContext.Foreign := by
  have foreign {ts : List String} (h : ∀ t ∈ ts, ¬ bytes auxiliaryStem <:+: bytes t) :
      ∀ t ∈ ts, Text.Foreign t := fun t ht => foreign_literal (h t ht)
  exact ⟨foreign (by decide +kernel), foreign (by decide +kernel), foreign (by decide +kernel),
    foreign (by decide +kernel)⟩

end LuaGlue
