import LuaGlue.Proofs.CType.Qualified
import LuaGlue.Proofs.Classifier.Names

/-!
# Where callbacks come from

A spelling is classified as a callback only if aliases lead from it to the spelling of a function pointer
(`CallsBack`), and then the category has as many parameters as that has. Pointers, dimensions and
references that are no constants never lead there; a `const` is carried along into the result. So it is for
whatever the memo holds, and for as long as a run asks (`classify_signed`): a category may be remembered from
a question that went further than any one question could.
-/

set_option autoImplicit false

namespace LuaGlue

/-! ## Chains of aliases -/

/-- `n` aliases lead from the spelling `s` to the spelling `e`, each of them a plain name. -/
inductive LeadsTo (aliases : List (String × String)) : String → Nat → String → Prop
  | here (s : String) : LeadsTo aliases s 0 s
  | step {s target e : String} {t : NamedType} {n : Nat} (ht : CType.parse s = .named t)
      (hp : t.pointers = 0) (hd : t.dims = []) (ha : aliases.lookup t.base = some target)
      (h : LeadsTo aliases target n e) : LeadsTo aliases s (n + 1) e

/-- The spelling of a function pointer, by itself or behind a `const` that stands in for its result. -/
inductive SpellsSignature (e : String) (f : FunctionPointer) : Prop
  | whole (h : CType.parse e = .function f)
  | headless (he : CType.parse e = .malformed) (h : CType.parse ("const " ++ e) = .function f)

/-- Aliases lead from the spelling to a function pointer with `k` parameters. -/
def CallsBack (aliases : List (String × String)) (s : String) (k : Nat) (variadic : Bool) : Prop :=
  ∃ n e f, LeadsTo aliases s n e ∧ SpellsSignature e f ∧ f.params.length = k ∧ f.variadic = variadic

variable {aliases : List (String × String)} {s s' : String} {k : Nat} {variadic : Bool}

theorem SpellsSignature.not_named {e : String} {f : FunctionPointer} (h : SpellsSignature e f)
    (t : NamedType) : CType.parse e ≠ .named t := by
  intro ht
  cases h with
  | whole h | headless h _ =>
    rw [ht] at h
    cases h

/-- What two named types lead to depends on what their spellings have in common. -/
theorem CallsBack.of_named {t t' : NamedType} (h : CallsBack aliases s' k variadic)
    (ht : CType.parse s = .named t) (ht' : CType.parse s' = .named t') (hbase : t.base = t'.base)
    (hpointers : t.pointers = t'.pointers) (hdims : t.dims = t'.dims) :
    CallsBack aliases s k variadic := by
  obtain ⟨n, e, f, hleads, hsig, hk, hv⟩ := h
  cases hleads with
  | here => exact absurd ht' (hsig.not_named t')
  | @step _ _ _ u n hu hp hd ha hrest =>
    rw [ht'] at hu
    obtain rfl := CType.named.inj hu
    exact ⟨n + 1, e, f, .step ht (hpointers.trans hp) (hdims.trans hd) (hbase ▸ ha) hrest, hsig, hk, hv⟩

/-- A `const` in front leads no further than what stands behind it. -/
theorem CallsBack.of_const (h : CallsBack aliases ("const " ++ s) k variadic) :
    CallsBack aliases s k variadic := by
  have hbehind : ∀ f, CType.parse ("const " ++ s) = .function f →
      ∃ g, SpellsSignature s g ∧ g.params = f.params ∧ g.variadic = f.variadic := by
    intro f hf
    rcases CType.parse_const_function hf with ⟨hbad, -⟩ | ⟨g, hg, hparams, hvariadic⟩
    · exact ⟨f, .headless hbad hf, rfl, rfl⟩
    · exact ⟨g, .whole hg, hparams, hvariadic⟩
  cases hparse : CType.parse ("const " ++ s) with
  | named t =>
    obtain ⟨u, hu, rfl⟩ := CType.parse_const_named hparse
    exact h.of_named hu hparse rfl rfl rfl
  | function f =>
    obtain ⟨n, e, f', hleads, hsig, rfl, rfl⟩ := h
    obtain ⟨g, hg, hparams, hvariadic⟩ := hbehind f hparse
    cases hleads with
    | step ht => rw [hparse] at ht; cases ht
    | here =>
      cases hsig with
      | whole hf' =>
        rw [hparse] at hf'
        obtain rfl := CType.function.inj hf'
        exact ⟨0, s, g, .here s, hg, congrArg List.length hparams, hvariadic⟩
      | headless hbad => rw [hparse] at hbad; cases hbad
  | malformed =>
    obtain ⟨n, e, f, hleads, hsig, -, -⟩ := h
    cases hleads with
    | step ht => rw [hparse] at ht; cases ht
    | here =>
      cases hsig with
      | whole hf => rw [hparse] at hf; cases hf
      | headless _ hf =>
        -- two `const` in a row do not leave the result of a function pointer to a third
        rcases CType.parse_const_function hf with ⟨-, hhead⟩ | ⟨g, hg, -⟩
        · have hfirst : ("const " ++ s).toList.head? = some 'c' := by
            rw [String.toList_append]
            rfl
          rw [head?_trim hfirst (by decide)] at hhead
          cases hhead
        · rw [hparse] at hg
          cases hg

/-- Nothing with a star at its end leads anywhere. -/
theorem not_callsBack_star (hlast : s.toList.getLast? = some '*') : ¬ CallsBack aliases s k variadic := by
  rintro ⟨n, e, f, hleads, hsig, -, -⟩
  cases hleads with
  | step ht hp => exact CType.pointers_of_parse_star hlast ht hp
  | here =>
    cases hsig with
    | whole hf => exact CType.parse_star_ne_function hlast f hf
    | headless _ hf =>
      have hlast' : ("const " ++ s).toList.getLast? = some '*' := by
        rw [String.toList_append, List.getLast?_append, hlast]
        rfl
      exact CType.parse_star_ne_function hlast' f hf

/-! ## Categories and the memo -/

/-- If the category is a callback, then aliases lead to a function pointer that it is the category of. -/
def Category.SignedBy (aliases : List (String × String)) (s : String) (c : Category) : Prop :=
  ∀ result params variadic, c = .callback result params variadic →
    CallsBack aliases s params.length variadic

/-- All callbacks in the memo come from function pointers. -/
def Memo.Signed (aliases : List (String × String)) (m : Memo) : Prop :=
  ∀ e ∈ m.entries, e.2.SignedBy aliases e.1

theorem Category.signedBy_of_other {c : Category} (h : c.isCallback = false) :
    c.SignedBy aliases s := by
  rintro result params variadic rfl
  cases h

theorem Memo.signed_empty : ({} : Memo).Signed aliases := fun _ he => absurd he List.not_mem_nil

theorem isCallback_classifyBase (index : TypeIndex) (base : String) :
    (classifyBase index base).isCallback = false := by
  rcases classifyBase_cases index base with h | ⟨_, -, h⟩ | ⟨-, -, h⟩ | h | h
  · obtain hc | hc | ⟨_, hc⟩ | ⟨_, hc, -⟩ := builtin?_cases h <;>
    · rw [hc]
      rfl
  all_goals
    rw [h]
    rfl

theorem isCallback_classifyPointer (index : TypeIndex) (base : String) (isConst : Bool) :
    (classifyPointer index base isConst).isCallback = false := by
  unfold classifyPointer
  split
  · rfl
  · split <;> rfl

/-! ## The classifier -/

section

variable {index : TypeIndex}

theorem classifyNamed_signed {next : String → Classifying Category}
    (hnext : ∀ s, (next s).Keeps (Memo.Signed index.aliases) (Category.SignedBy index.aliases s))
    {t : NamedType} (ht : CType.parse s = .named t) :
    (classifyNamed index next t).Keeps (Memo.Signed index.aliases)
      (Category.SignedBy index.aliases s) := by
  have unknown : Category.unknown.SignedBy index.aliases s := Category.signedBy_of_other rfl
  -- a question handed on is answered for the spelling it is about
  have through {s' : String} (h : ∀ {k variadic}, CallsBack index.aliases s' k variadic →
      CallsBack index.aliases s k variadic) :
      (next s').Keeps (Memo.Signed index.aliases) (Category.SignedBy index.aliases s) := by
    intro m hm
    obtain ⟨hc, hm'⟩ := hnext s' m hm
    exact ⟨fun result params variadic heq => h (hc result params variadic heq), hm'⟩
  unfold classifyNamed
  split
  · split
    · rename_i hconst
      simp only [Bool.and_eq_true, beq_iff_eq, List.isEmpty_iff] at hconst
      have hread := NamedType.parse_render (CType.wellFormed_of_parse ht).unqualified
      exact through fun h => h.of_named ht hread rfl rfl rfl
    · exact .pure unknown
  · split
    · refine (hnext _).bind fun elem _ => ?_
      split
      · exact .pure unknown
      · exact .pure unknown
      · exact .pure (Category.signedBy_of_other rfl)
    · exact .pure unknown
    · rename_i hdims
      split
      · rename_i target htarget
        refine through fun {k variadic} h => ?_
        cases hpointers : t.pointers with
        | succ n =>
          refine absurd h (not_callsBack_star ?_)
          simp [NamedType.spellAlias, hpointers, String.toList_append, List.replicate_succ',
            List.getLast?_append]
        | zero =>
          have hbehind : CallsBack index.aliases target k variadic := by
            unfold NamedType.spellAlias at h
            cases hconst : t.constBase with
            | true =>
              simp only [hconst, hpointers, if_true, List.replicate_zero, String.ofList_nil,
                String.append_empty] at h
              exact h.of_const
            | false => simpa [hconst, hpointers] using h
          obtain ⟨n, e, f, hleads, hrest⟩ := hbehind
          exact ⟨n + 1, e, f, .step ht hpointers hdims htarget hleads, hrest⟩
      · split
        · exact .pure (Category.signedBy_of_other (isCallback_classifyBase index _))
        · exact .pure (Category.signedBy_of_other (isCallback_classifyPointer index _ _))
        · exact .pure unknown

/-- **Every callback is the category of a function pointer that aliases lead to**, whatever is asked and in
whatever order. -/
theorem classifyFrom_signed (steps : Nat) : ∀ s, (classifyFrom index steps s).Keeps
    (Memo.Signed index.aliases) (Category.SignedBy index.aliases s) := by
  change ∀ s, (classifyFrom index steps s).Keeps (Memo.Each (Category.SignedBy index.aliases)) _
  refine classifyFrom_keeps_each (fun _ => Category.signedBy_of_other rfl) (fun rest ih s => ?_) steps
  unfold classifyAnew
  dsimp only
  split
  · exact classifyNamed_signed ih ‹_›
  · rename_i f hf
    refine (ih _).bind fun result _ => ?_
    have hparams : (f.params.mapM (classifyFrom index rest)).Keeps (Memo.Signed index.aliases)
        fun params => params.length = f.params.length := by
      have hkept : (f.params.mapM (classifyFrom index rest)).Keeps (Memo.Signed index.aliases)
          fun params => ∀ c ∈ params, True :=
        .mapM fun p _ m hm => ⟨trivial, (ih p m hm).2⟩
      exact fun m hm => ⟨Classifying.run_mapM_length _ _ m, (hkept m hm).2⟩
    refine hparams.bind fun params hlength => .pure ?_
    rintro result' params' variadic heq
    cases heq
    exact ⟨0, s, f, .here s, .whole hf, hlength.symm, rfl⟩
  · exact .pure (Category.signedBy_of_other rfl)

theorem classify_signed (s : String) : (classify index s).Keeps (Memo.Signed index.aliases)
    (Category.SignedBy index.aliases s) :=
  classifyFrom_signed maxSteps s

end

end LuaGlue
