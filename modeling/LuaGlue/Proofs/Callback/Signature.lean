import LuaGlue.Proofs.Callback.DispatcherCode
import LuaGlue.Proofs.Classifier.Answers
import LuaGlue.Proofs.Classifier.Signatures
import LuaGlue.Proofs.Marshal.Faults

/-!
# Trampolines of aliased callbacks

A callback field is found by the classifier and written by `trampolines`, and each follows the aliases of
its type by itself. They find the same function pointer, so the trampolines have as many parameters as the
category says; but `trampolines` gives up after `maxSignatureSteps` spellings, and the classifier does not.
`trampolines_follow_aliases` says exactly when the signature of a callback cannot be told, and
`trampolines_lose_long_chain` is the shortest chain of aliases that is too long.
-/

set_option autoImplicit false

namespace LuaGlue

/-! ## Following aliases for a signature -/

/-- Along a chain of aliases to anything but a named type, the signature is found if the chain has fewer
aliases than there are steps, and is that of its end. -/
theorem signatureWithin_leadsTo {aliases : List (String × String)} {s e : String} {n : Nat}
    (h : LeadsTo aliases s n e) (hend : ∀ t, CType.parse e ≠ .named t) (steps : Nat) :
    signatureWithin aliases steps s = if n < steps then signatureWithin aliases 1 e else none := by
  induction h generalizing steps with
  | here s =>
    cases steps with
    | zero => rfl
    | succ steps =>
      rw [if_pos (Nat.succ_pos steps), signatureWithin, signatureWithin]
      cases hparse : CType.parse s with
      | named t => exact absurd hparse (hend t)
      | function f => rfl
      | malformed => rfl
  | @step s target e t n ht hp hd ha _ ih =>
    cases steps with
    | zero => rfl
    | succ steps =>
      rw [signatureWithin, ht]
      simp only [hp, hd, ha, BEq.rfl, List.isEmpty_nil, Bool.and_self, if_true, Option.bind_some,
        ih hend, Nat.succ_lt_succ_iff]

theorem signature_leadsTo {ctx : Context} {owner : String} {field : Field} {e : String}
    {f : FunctionPointer} {n : Nat} (h : LeadsTo ctx.manifest.types.aliases field.type n e)
    (hsig : SpellsSignature e f) (hvariadic : f.variadic = false) :
    signature ctx owner field =
      if n < maxSignatureSteps ∧ CType.parse e ≠ .malformed then .ok f
      else .error (.callback owner field.name field.type) := by
  unfold signature
  rw [signatureWithin_leadsTo h hsig.not_named]
  by_cases hn : n < maxSignatureSteps
  · cases hsig with
    | whole hf => simp [hn, signatureWithin, hf, hvariadic]
    | headless he _ => simp [hn, signatureWithin, he]
  · simp [hn]

/-! ## Faults of a callback -/

/-- Whether the fault is about a callback's signature. -/
def Fault.isCallback : Fault → Bool
  | .callback .. => true
  | _ => false

namespace Draft

variable {α β : Type} {P : Fault → Prop}

/-- Whatever fault the step breaks off with is one of which `P` holds. -/
def FaultsIn (P : Fault → Prop) (m : Draft α) : Prop :=
  ∀ s fault, (m s).1.fault? = some fault → P fault

namespace FaultsIn

theorem pure (a : α) : FaultsIn P (Pure.pure a : Draft α) := fun _ _ h => by cases h

theorem line (l : Line) : FaultsIn P (Draft.line l) := fun _ _ h => by cases h

theorem lines (ls : List Line) : FaultsIn P (Draft.lines ls) := fun _ _ h => by cases h

theorem write (code : Code) : FaultsIn P (Draft.write code) := fun _ _ h => by cases h

theorem temp : FaultsIn P Draft.temp := fun _ _ h => by cases h

theorem ok (a : α) : FaultsIn P (Draft.ofExcept (.ok a)) := fun _ _ h => by cases h

theorem asking (q : Classifying α) : FaultsIn P (Draft.asking q) := fun _ _ h => by cases h

theorem bind {m : Draft α} {f : α → Draft β} (hm : FaultsIn P m) (hf : ∀ a, FaultsIn P (f a)) :
    FaultsIn P (m >>= f) := by
  intro s fault h
  change (Draft.bind m f s).1.fault? = some fault at h
  have hs := hm s
  unfold Draft.bind at h
  rcases hr : m s with ⟨a | _, s'⟩
  · rw [hr] at h
    have hnext := hf a s'
    dsimp only at h
    rcases hr' : f a s' with ⟨b | _, s''⟩ <;> rw [hr'] at h hnext
    · cases h
    · exact hnext fault h
  · rw [hr] at h hs
    exact hs fault h

theorem around {m : Draft α} (hm : FaultsIn P m) (g : Code → Code) (t : List Event → List Event) :
    FaultsIn P fun s => match m s with
      | (.written value inner, s') => (Outcome.written value (g inner), s')
      | (.torn fault events, s') => (.torn fault (t events), s') := by
  intro s fault h
  have hs := hm s
  dsimp only at h
  rcases hr : m s with ⟨a | _, s'⟩ <;> rw [hr] at h hs
  · cases h
  · exact hs fault h

theorem block {m : Draft α} (head : Head) (hm : FaultsIn P m) : FaultsIn P (Draft.block head m) :=
  hm.around (fun body => .block head body .brace .done) _

theorem branch {m : Draft α} (c : Cond) (otherwise : Code) (hm : FaultsIn P m) :
    FaultsIn P (Draft.branch c m otherwise) :=
  hm.around (fun yes => .branch c yes otherwise .done) _

theorem of_failsAs {m : Draft α} {Q : Fault → Memo → Prop} (h : ∀ s, m.FailsAs Q s)
    (hQ : ∀ fault M, Q fault M → P fault) : FaultsIn P m := by
  intro s fault hfault
  obtain ⟨events, s', hm⟩ := Draft.exists_torn m s hfault
  have htorn := h s s'.memo (by rw [hm]; exact Memo.Grows.refl _)
  rw [hm] at htorn
  exact hQ _ _ htorn

end FaultsIn

end Draft

open Draft

section

variable {ctx : Context}

/-- Marshaling breaks off with other faults. -/
theorem Hindered.not_callback {M : Memo} {action : Action} {levels : Nat} {spelling : String}
    {fault : Fault} (h : Hindered ctx M action levels spelling fault) : fault.isCallback = false := by
  obtain ⟨k, part, -, hindrance⟩ := h
  cases hindrance <;> rfl

theorem returnZero_faultsIn (P : Fault → Prop) (spelling : String) :
    (returnZero ctx spelling).FaultsIn P := by
  unfold returnZero
  refine FaultsIn.bind (.asking _) fun category => ?_
  split
  · exact .line _
  · dsimp only
    split
    · exact .line _
    · exact FaultsIn.temp.bind fun _ => .lines _

theorem push_faultsIn (spelling : String) (source : Place) :
    (push ctx spelling source).FaultsIn (·.isCallback = false) :=
  .of_failsAs (fun _ => push_failsAs) fun _ _ h => h.not_callback

theorem read_faultsIn (mode : ReadMode) (spelling : String) (place : Place) (index : StackIndex) :
    (read ctx mode spelling place index).FaultsIn (·.isCallback = false) :=
  .of_failsAs (fun _ => read_failsAs) fun _ _ h => h.not_callback

theorem pushArguments_faultsIn : ∀ (params : List String) (i : Nat),
    (pushArguments ctx i params).FaultsIn (·.isCallback = false) := by
  intro params
  induction params with
  | nil => exact fun _ => .pure ()
  | cons spelling rest ih => exact fun i => (push_faultsIn _ _).bind fun _ => ih (i + 1)

theorem dispatcherBody_faultsIn (site result : String) (category : Category) (params : List String) :
    (dispatcherBody ctx site result category params).FaultsIn (·.isCallback = false) := by
  have zero : (returnZero ctx result).FaultsIn (·.isCallback = false) := returnZero_faultsIn _ result
  have answer : (answerResult ctx result category).FaultsIn (·.isCallback = false) := by
    unfold answerResult
    split
    · exact (FaultsIn.line _).bind fun _ => (read_faultsIn _ _ _ _).bind fun _ => .lines _
    · split
      · exact zero
      · exact .pure ()
  have calling : (callClosure ctx site result category params.length).FaultsIn
      (·.isCallback = false) :=
    (((FaultsIn.lines _).bind fun _ => zero).branch _ _).bind fun _ => answer
  unfold dispatcherBody
  dsimp only
  refine (zero.branch _ _).bind fun _ => (FaultsIn.line _).bind fun _ =>
    (((FaultsIn.line _).bind fun _ => zero).branch _ _).bind fun _ => (FaultsIn.line _).bind fun _ =>
      (pushArguments_faultsIn params 0).bind fun _ => ?_
  cases !category.isVoid && !category.isCallbackResult with
  | true => exact (FaultsIn.line _).bind fun _ => calling
  | false => exact calling

/-- The trampolines of a field break off with a fault about a callback only if its signature cannot be
told. -/
theorem trampolines_callback_iff (owner : String) (field : Field) (s : Scratch) :
    (∃ fault, (trampolines ctx owner field s).1.fault? = some fault ∧ fault.isCallback = true) ↔
      ∃ fault, signature ctx owner field = .error fault := by
  unfold trampolines
  cases hsignature : signature ctx owner field with
  | error fault =>
    refine iff_of_true ⟨fault, rfl, ?_⟩ ⟨fault, rfl⟩
    unfold signature at hsignature
    split at hsignature
    · cases hsignature
    · cases hsignature
      rfl
  | ok f =>
    refine iff_of_false ?_ (by simp)
    rintro ⟨fault, hfault, hcallback⟩
    have hother : fault.isCallback = false :=
      ((FaultsIn.ok f).bind fun f => (FaultsIn.asking _).bind fun category =>
        ((dispatcherBody_faultsIn _ _ _ _).block _).bind fun _ => .write _) s fault hfault
    rw [hother] at hcallback
    cases hcallback

/-! ## Parameters -/

/-- The declarations of a trampoline's parameters. -/
def FunctionPointer.declarations (f : FunctionPointer) : List String :=
  f.params.mapIdx fun i spelling => declare spelling (callbackParam i)

/-- The parameter list of a trampoline. -/
def parameterList (declarations : List String) : String :=
  if declarations.isEmpty then "void" else ", ".intercalate declarations

theorem FunctionPointer.declarations_length (f : FunctionPointer) :
    f.declarations.length = f.params.length := List.length_mapIdx

/-- A dispatcher and the trampolines, each declaring and passing on the parameters of the signature. -/
theorem trampolines_declared {owner : String} {field : Field} {s s' : Scratch} {u : Unit} {code : Code}
    (h : trampolines ctx owner field s = (.written u code, s')) :
    ∃ f category head body, signature ctx owner field = .ok f ∧
      code = .block head body .brace
        (poolCode owner field.name (Text.trimmed f.result) category (parameterList f.declarations)
          f.params.length) := by
  obtain ⟨f, _, _, _, hsignature, h₁, rfl⟩ := Draft.bind_written.mp h
  obtain ⟨hf, rfl, rfl⟩ := Draft.ofExcept_written.mp hsignature
  obtain ⟨category, _, _, _, hask, h₂, rfl⟩ := Draft.bind_written.mp h₁
  obtain ⟨rfl, -, -⟩ := Context.categoryOf_written hask
  obtain ⟨_, _, _, _, hblock, hpool, rfl⟩ := Draft.bind_written.mp h₂
  obtain ⟨rfl, rfl⟩ := Draft.write_written.mp hpool
  obtain ⟨body, -, rfl⟩ := Draft.block_written.mp hblock
  exact ⟨f, category, _, body, hf, rfl⟩

end

/-! ## The classifier and the trampolines -/

theorem Category.exists_of_isBindable {c : Category} (h : c.isBindable = true) :
    ∃ result params, c = .callback result params false := by
  cases c with
  | callback result params variadic =>
    cases variadic with
    | false => exact ⟨result, params, rfl⟩
    | true => cases h
  | _ => cases h

theorem memoAt_signed (index : TypeIndex) (history : List String) (k : Nat) :
    (memoAt index history {} k).Signed index.aliases := by
  have hkept : ((history.take k).mapM (classify index)).Keeps (Memo.Signed index.aliases)
      fun categories => ∀ c ∈ categories, True :=
    .mapM fun s _ m hm => ⟨trivial, (classify_signed s m hm).2⟩
  exact (hkept {} Memo.signed_empty).2

/-- The aliases of a context that is built are the manifest's. -/
theorem Context.build_aliases (i : Interface) (manifest : Manifest) (m : Memo) :
    ((Context.build i manifest).run m).1.index.aliases =
      ((Context.build i manifest).run m).1.manifest.types.aliases := rfl

/-- **The trampolines of a field that the classifier calls a callback have as many parameters as its category
says, and their signature is told unless the chain of aliases to it is too long**: `n` aliases lead to the
function pointer `e`, and fewer than `maxSignatureSteps` are followed. Nor is it told if `e` has nothing in
front of its parenthesis, so that the classifier took the `const` around an alias for the result. -/
theorem trampolines_follow_aliases {ctx : Context}
    (hctx : ctx.index.aliases = ctx.manifest.types.aliases) (history : List String) (owner : String)
    (field : Field) {result : Category} {params : List Category}
    (hbindable : ((ctx.classify field.type).run (memoAt ctx.index history {} history.length)).1 =
      .callback result params false) :
    ∃ n e f, LeadsTo ctx.manifest.types.aliases field.type n e ∧ SpellsSignature e f ∧
      f.declarations.length = params.length ∧
      ∀ s, ((∃ fault, (trampolines ctx owner field s).1.fault? = some fault ∧
          fault.isCallback = true) ↔ maxSignatureSteps ≤ n ∨ CType.parse e = .malformed) ∧
        ∀ code s', trampolines ctx owner field s = (.written () code, s') →
          ∃ category head body, code = .block head body .brace
            (poolCode owner field.name (Text.trimmed f.result) category
              (parameterList f.declarations) params.length) := by
  have hmemo := memoAt_signed ctx.index history history.length
  obtain ⟨n, e, f, hleads, hsig, hlength, hvariadic⟩ :=
    (classify_signed field.type _ hmemo).1 result params false hbindable
  rw [hctx] at hleads
  have hsignature : signature ctx owner field = _ := signature_leadsTo hleads hsig hvariadic
  refine ⟨n, e, f, hleads, hsig, f.declarations_length.trans hlength, fun s => ⟨?_, ?_⟩⟩
  · rw [trampolines_callback_iff, hsignature]
    by_cases hn : n < maxSignatureSteps ∧ CType.parse e ≠ .malformed
    · rw [if_pos hn]
      refine iff_of_false (by simp) ?_
      rw [not_or, Nat.not_le]
      exact hn
    · rw [if_neg hn]
      refine iff_of_true ⟨_, rfl⟩ ?_
      rw [not_and_or, Nat.not_lt, not_not] at hn
      exact hn
  · intro code s' hcode
    obtain ⟨g, category, head, body, hg, rfl⟩ := trampolines_declared hcode
    rw [hsignature] at hg
    split at hg
    · obtain rfl := Except.ok.inj hg
      exact ⟨category, head, body, by rw [hlength]⟩
    · cases hg

/-- An alias to a function pointer. -/
def tickManifest : Manifest := { types := { aliases := [("Tick", "void (*)(int, float)")] } }

/-- One alias, behind a reference. -/
theorem trampolines_follow_tick :
    let ctx := ((Context.build {} tickManifest).run {}).1
    let field : Field := ⟨"on_tick", "const Tick&"⟩
    ctx.index.aliases = ctx.manifest.types.aliases ∧ ∃ result params,
      ((ctx.classify field.type).run (memoAt ctx.index ["int"] {} 1)).1 =
          .callback result params false ∧
        ∃ n e f, LeadsTo ctx.manifest.types.aliases field.type n e ∧ SpellsSignature e f ∧
          f.declarations.length = params.length ∧
          ∀ s, ((∃ fault, (trampolines ctx "Clock" field s).1.fault? = some fault ∧
              fault.isCallback = true) ↔ maxSignatureSteps ≤ n ∨ CType.parse e = .malformed) := by
  intro ctx field
  obtain ⟨result, params, hbindable⟩ := Category.exists_of_isBindable
    (show ((ctx.classify field.type).run (memoAt ctx.index ["int"] {} 1)).1.isBindable = true by
      decide +kernel)
  obtain ⟨n, e, f, hleads, hsig, hlength, hall⟩ :=
    trampolines_follow_aliases (Context.build_aliases {} tickManifest {}) ["int"] "Clock" field hbindable
  exact ⟨rfl, result, params, hbindable, n, e, f, hleads, hsig, hlength, fun s => (hall s).1⟩

/-- Eight aliases in a row, the last one to a function pointer. -/
def longChain : Manifest :=
  { types := { aliases :=
      [("A1", "A2"), ("A2", "A3"), ("A3", "A4"), ("A4", "A5"), ("A5", "A6"), ("A6", "A7"),
       ("A7", "A8"), ("A8", "void (*)(int)")] } }

/-- **A callback that the classifier finds, and whose trampolines cannot be written**: the function pointer
stands behind eight aliases, which makes it the ninth spelling that is looked at. -/
theorem trampolines_lose_long_chain :
    let ctx := ((Context.build {} longChain).run {}).1
    let field : Field := ⟨"on_tick", "A1"⟩
    let memo := memoAt ctx.index ["void (*)(int)"] {} 1
    ((ctx.classify field.type).run memo).1.isBindable = true ∧
      (trampolines ctx "Clock" field { memo := memo }).1.fault? =
        some (.callback "Clock" "on_tick" "A1") := by
  decide +kernel

end LuaGlue
