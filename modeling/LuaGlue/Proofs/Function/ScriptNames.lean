import LuaGlue.Proofs.Function.Plan
import LuaGlue.Proofs.Naming.Registered
import Mathlib.Data.List.Induction

/-!
# Who has which script name

The plan goes through the functions in order and gives each the name it asks for, if the name is still
free. Without the classifier this is a plain recursion (`giveOut`): what a function asks for, or why it may
ask for nothing, is its `verdict`, and one step notes who was given what. The plan is this recursion with
the verdicts by the memo it leaves (`build_giveOut`), or by any memo that knows more.

So names are given out first come, first served (`overload_plan_first_come`): what collides gets nothing,
and of the others that ask for one name the first one has it. Since at most one function is alone with its
script name, the aliases of reserved words stay apart from all other names.
-/

set_option autoImplicit false

namespace LuaGlue

/-! ## What a function asks for -/

namespace Candidate

/-- The script name of a function before suffixes. -/
def base (ctx : Context) (c : Candidate) : String := ctx.naming.functionName c.function.name

/-- The suffix of a function by the categories in a memo. -/
def suffix (ctx : Context) (m : Memo) (c : Candidate) : String :=
  ((overloadSuffix ctx c.function).run m).1

/-- Another function has the same script name and the same suffix. -/
def Collides (ctx : Context) (m : Memo) (functions : List Candidate) (c : Candidate) : Prop :=
  ∃ other ∈ functions, other.position ≠ c.position ∧ other.base ctx = c.base ctx ∧
    other.suffix ctx m = c.suffix ctx m

/-- The name a function is to have: with its suffix, unless it is alone with its script name. -/
def wanted (ctx : Context) (m : Memo) (functions : List Candidate) (c : Candidate) : String :=
  if (c.group ctx functions).length > 1 then c.base ctx ++ c.suffix ctx m else c.base ctx

/-- Why a function may ask for no names, or the names that it asks for. -/
def verdict (ctx : Context) (m : Memo) (functions : List Candidate) (c : Candidate) :
    Except Fault FunctionNames :=
  if (c.group ctx functions).length > 1 then
    if (c.group ctx functions).any fun other =>
        other.position != c.position && other.suffix ctx m == c.suffix ctx m then
      .error (.overloadCollision (c.base ctx) (c.suffix ctx m))
    else .ok ⟨"l_" ++ c.function.name ++ c.suffix ctx m, c.base ctx ++ c.suffix ctx m⟩
  else .ok ⟨"l_" ++ c.function.name, c.base ctx⟩

end Candidate

section

variable {ctx : Context} {m m' M : Memo} {functions : List Candidate} {c c' : Candidate}

theorem mem_group_iff : c' ∈ c.group ctx functions ↔ c' ∈ functions ∧ c'.base ctx = c.base ctx := by
  unfold Candidate.group sharing
  rw [List.mem_map]
  constructor
  · rintro ⟨e, he, rfl⟩
    obtain ⟨he, hbase⟩ := List.mem_filter.mp he
    obtain ⟨c', hc', rfl⟩ := List.mem_map.mp he
    exact ⟨hc', eq_of_beq hbase⟩
  · rintro ⟨hc', hbase⟩
    refine ⟨(c'.base ctx, c'), List.mem_filter.mpr ⟨List.mem_map.mpr ⟨c', hc', rfl⟩, ?_⟩, rfl⟩
    exact beq_iff_eq.mpr hbase

/-- Two functions of one script name are not alone with it. -/
theorem one_lt_group (hc : c ∈ functions) (hc' : c' ∈ functions) (hp : c'.position ≠ c.position)
    (hbase : c'.base ctx = c.base ctx) : 1 < (c.group ctx functions).length := by
  have hmem : c ∈ c.group ctx functions := mem_group_iff.mpr ⟨hc, rfl⟩
  have hmem' : c' ∈ c.group ctx functions := mem_group_iff.mpr ⟨hc', hbase⟩
  generalize c.group ctx functions = group at hmem hmem'
  rcases group with _ | ⟨first, _ | ⟨second, rest⟩⟩
  · exact absurd hmem List.not_mem_nil
  · rw [List.mem_singleton.mp hmem, List.mem_singleton.mp hmem'] at hp
    exact absurd rfl hp
  · simp

theorem verdict_error_iff (hc : c ∈ functions) :
    c.verdict ctx m functions = .error (.overloadCollision (c.base ctx) (c.suffix ctx m)) ↔
      c.Collides ctx m functions := by
  unfold Candidate.verdict
  constructor
  · intro h
    split at h
    · split at h
      · rename_i hany
        obtain ⟨other, hother, hsame⟩ := List.any_eq_true.mp hany
        obtain ⟨hfunctions, hbase⟩ := mem_group_iff.mp hother
        rw [Bool.and_eq_true, bne_iff_ne, beq_iff_eq] at hsame
        exact ⟨other, hfunctions, hsame.1, hbase, hsame.2⟩
      · cases h
    · cases h
  · rintro ⟨other, hother, hp, hbase, hsuffix⟩
    rw [if_pos (one_lt_group hc hother hp hbase), if_pos]
    refine List.any_eq_true.mpr ⟨other, mem_group_iff.mpr ⟨hother, hbase⟩, ?_⟩
    rw [Bool.and_eq_true, bne_iff_ne, beq_iff_eq]
    exact ⟨hp, hsuffix⟩

/-- A function collides, or it asks for the name it is to have. -/
theorem verdict_cases (ctx : Context) (m : Memo) (functions : List Candidate) (c : Candidate) :
    c.verdict ctx m functions = .error (.overloadCollision (c.base ctx) (c.suffix ctx m)) ∨
      ∃ names, c.verdict ctx m functions = .ok names ∧
        names.scriptName = c.wanted ctx m functions := by
  unfold Candidate.verdict Candidate.wanted
  split
  · split
    · exact .inl rfl
    · exact .inr ⟨_, rfl, rfl⟩
  · exact .inr ⟨_, rfl, rfl⟩

theorem verdict_ok_iff (hc : c ∈ functions) : (∃ names, c.verdict ctx m functions = .ok names ∧
    names.scriptName = c.wanted ctx m functions) ↔ ¬ c.Collides ctx m functions := by
  rw [← verdict_error_iff hc]
  constructor
  · rintro ⟨names, hnames, -⟩ h
    rw [hnames] at h
    cases h
  · exact (verdict_cases ctx m functions c).resolve_left

/-! ## What the plan asks the classifier -/

/-- A suffix that is known is the answer to the question for it. -/
theorem HasSuffix.suffix_eq {suffix : String} (h : HasSuffix ctx m c.function suffix) :
    c.suffix ctx m = suffix := by
  obtain ⟨categories, hknown, rfl⟩ := h
  have answered : ∀ {params : List Param} {categories : List Category},
      params.map (fun p => m.find? p.type) = categories.map some →
      (params.mapM fun p => ctx.classify p.type).run m = (categories, m) := by
    intro params
    induction params with
    | nil =>
      intro categories hknown
      cases categories with
      | nil => rfl
      | cons => cases hknown
    | cons p rest ih =>
      intro categories hknown
      cases categories with
      | nil => cases hknown
      | cons first categories =>
        rw [List.map_cons, List.map_cons, List.cons.injEq] at hknown
        rw [List.mapM_cons, Classifying.run_bind]
        rw [show (ctx.classify p.type).run m = (first, m) from classify_known hknown.1]
        rw [Classifying.run_bind, ih hknown.2, Classifying.run_pure]
  unfold Candidate.suffix overloadSuffix
  rw [Classifying.run_bind, answered hknown, Classifying.run_pure]

/-- If one of the others was found to have the suffix, it has. -/
theorem someSame_suffix {suffix : String} :
    ∀ {others : List Candidate} {m m' : Memo},
      (others.anyM (sameSuffix ctx suffix)).run m = (true, m') →
      ∃ other ∈ others, HasSuffix ctx m' other.function suffix := by
  intro others
  induction others with
  | nil =>
    intro m m' h
    obtain ⟨habsurd, -⟩ := Classifying.run_pure_eq.mp h
    cases habsurd
  | cons first rest ih =>
    intro m m' h
    obtain ⟨found, m₁, hfirst, hrest⟩ := Classifying.run_bind_eq.mp h
    cases found with
    | true =>
      obtain ⟨-, rfl⟩ := Classifying.run_pure_eq.mp hrest
      obtain ⟨suffix', m₂, hsuffix, hreturn⟩ := Classifying.run_bind_eq.mp hfirst
      obtain ⟨heq, rfl⟩ := Classifying.run_pure_eq.mp hreturn
      obtain rfl := eq_of_beq heq
      exact ⟨first, List.mem_cons_self, overloadSuffix_has hsuffix⟩
    | false =>
      obtain ⟨other, hother, hsuffix⟩ := ih hrest
      exact ⟨other, List.mem_cons_of_mem _ hother, hsuffix⟩

/-- What the plan finds out about a function is its verdict, by any memo that knows as much. -/
theorem ownNames_verdict {answer : Except Fault FunctionNames}
    (h : (c.ownNames ctx (c.base ctx) (c.group ctx functions)).run m = (answer, m'))
    (hM : m'.Grows M) : answer = c.verdict ctx M functions := by
  unfold Candidate.ownNames at h
  unfold Candidate.verdict
  by_cases hone : (c.group ctx functions).length > 1
  · rw [if_pos hone] at h ⊢
    obtain ⟨suffix, m₁, hown, h₁⟩ := Classifying.run_bind_eq.mp h
    obtain ⟨collides, m₂, hothers, hreturn⟩ := Classifying.run_bind_eq.mp h₁
    have hothers' := (Classifying.Grows.anyM (sameSuffix_grows ctx suffix) _).of_run hothers
    have hm₂ : m₂.Grows M := by
      cases collides <;> obtain ⟨-, rfl⟩ := Classifying.run_pure_eq.mp hreturn <;> exact hM
    have hsuffix : c.suffix ctx M = suffix :=
      ((overloadSuffix_has hown).mono (hothers'.trans hm₂)).suffix_eq
    rw [hsuffix]
    cases collides with
    | true =>
      obtain ⟨rfl, -⟩ := Classifying.run_pure_eq.mp hreturn
      rw [if_pos]
      obtain ⟨other, hother, hsame⟩ := someSame_suffix hothers
      obtain ⟨hgroup, hp⟩ := List.mem_filter.mp hother
      refine List.any_eq_true.mpr ⟨other, hgroup, ?_⟩
      rw [hp, (hsame.mono hm₂).suffix_eq, Bool.true_and, beq_self_eq_true]
    | false =>
      obtain ⟨rfl, -⟩ := Classifying.run_pure_eq.mp hreturn
      rw [if_neg]
      intro hany
      obtain ⟨other, hgroup, hsame⟩ := List.any_eq_true.mp hany
      rw [Bool.and_eq_true, beq_iff_eq] at hsame
      obtain ⟨suffix', hsuffix', hne⟩ :=
        noneSame_suffixes hothers other (List.mem_filter.mpr ⟨hgroup, hsame.1⟩)
      exact hne ((hsuffix'.mono hm₂).suffix_eq ▸ hsame.2)
  · rw [if_neg hone] at h ⊢
    obtain ⟨rfl, -⟩ := Classifying.run_pure_eq.mp h
    rfl

end

/-! ## Giving out names -/

section

variable (verdict : Candidate → Except Fault FunctionNames)

/-- What a function is given when the names in `taken` are. -/
def award (taken : List (String × String)) (c : Candidate) : Except Fault FunctionNames :=
  match verdict c with
  | .error fault => .error fault
  | .ok names =>
    match taken.lookup names.scriptName with
    | some first => .error (.duplicateName names.scriptName first)
    | none => .ok names

/-- The names that are taken when a function has had its turn. -/
def note (taken : List (String × String)) (c : Candidate) : List (String × String) :=
  match award verdict taken c with
  | .error _ => taken
  | .ok names => (names.scriptName, c.function.name) :: taken

/-- Gives out names in order. -/
def giveOut (taken : List (String × String)) :
    List Candidate → List (Nat × Except Fault FunctionNames)
  | [] => []
  | c :: rest => (c.position, award verdict taken c) :: giveOut (note verdict taken c) rest

end

section

variable {ctx : Context} {functions : List Candidate} {M : Memo}

/-- The plan gives out names by the verdicts. -/
theorem planFrom_giveOut : ∀ {rest : List Candidate} {taken : List (String × String)}
    {entries : List (Nat × Except Fault FunctionNames)} {m m' : Memo},
      (planFrom ctx (functions.map fun c => (c.base ctx, c)) taken
        (rest.map fun c => (c.base ctx, c))).run m = (entries, m') →
      m'.Grows M → entries = giveOut (Candidate.verdict ctx M functions) taken rest := by
  intro rest
  induction rest with
  | nil =>
    intro taken entries m m' h _
    obtain ⟨rfl, -⟩ := Classifying.run_pure_eq.mp h
    rfl
  | cons c rest ih =>
    intro taken entries m m' h hM
    obtain ⟨answer, m₁, hown, h₁⟩ := Classifying.run_bind_eq.mp h
    -- the entries after the first one, whatever names are taken by then
    have later {taken' : List (String × String)} {entry : Nat × Except Fault FunctionNames}
        (hrest : (do return entry :: (← planFrom ctx (functions.map fun c => (c.base ctx, c)) taken'
            (rest.map fun c => (c.base ctx, c))) :
          Classifying (List (Nat × Except Fault FunctionNames))).run m₁ = (entries, m')) :
        answer = c.verdict ctx M functions ∧
          entries = entry :: giveOut (Candidate.verdict ctx M functions) taken' rest := by
      obtain ⟨others, m₂, hothers, hreturn⟩ := Classifying.run_bind_eq.mp hrest
      obtain ⟨rfl, rfl⟩ := Classifying.run_pure_eq.mp hreturn
      have hgrows := (planFrom_grows ctx _ _ _).of_run hothers
      exact ⟨ownNames_verdict hown (hgrows.trans hM), by rw [ih hothers hM]⟩
    rw [giveOut, note, award]
    cases answer with
    | error fault =>
      obtain ⟨hanswer, rfl⟩ := later h₁
      rw [← hanswer]
    | ok names =>
      dsimp only at h₁
      cases htaken : taken.lookup names.scriptName with
      | some first =>
        rw [htaken] at h₁
        obtain ⟨hanswer, rfl⟩ := later h₁
        rw [← hanswer]
        simp only [htaken]
      | none =>
        rw [htaken] at h₁
        obtain ⟨hanswer, rfl⟩ := later h₁
        rw [← hanswer]
        simp only [htaken]

theorem build_giveOut {plan : OverloadPlan} {m m' : Memo}
    (h : (OverloadPlan.build ctx functions).run m = (plan, m')) (hM : m'.Grows M) :
    plan.entries = giveOut (Candidate.verdict ctx M functions) [] functions := by
  obtain ⟨entries, m₁, hentries, hreturn⟩ := Classifying.run_bind_eq.mp h
  obtain ⟨rfl, rfl⟩ := Classifying.run_pure_eq.mp hreturn
  exact planFrom_giveOut hentries hM

end

/-! ## Holders of names -/

/-- The plan gives a function this script name. -/
def OverloadPlan.Holds (plan : OverloadPlan) (c : Candidate) (name : String) : Prop :=
  ∃ names, plan.names? c.position = some (.ok names) ∧ names.scriptName = name

section

variable {verdict : Candidate → Except Fault FunctionNames} {functions : List Candidate}
  {plan : OverloadPlan}

/-- The names that are taken when some functions have had their turns. -/
def takenBy (verdict : Candidate → Except Fault FunctionNames) (before : List Candidate) :
    List (String × String) :=
  before.foldl (note verdict) []

/-- What a function is given depends on the functions before it. -/
theorem lookup_giveOut {c : Candidate} {after : List Candidate} :
    ∀ {before : List Candidate} {taken : List (String × String)},
      (∀ other ∈ before, other.position ≠ c.position) →
      (giveOut verdict taken (before ++ c :: after)).lookup c.position =
        some (award verdict (before.foldl (note verdict) taken) c) := by
  intro before
  induction before with
  | nil =>
    intro taken _
    simp [giveOut]
  | cons first rest ih =>
    intro taken h
    have hne : (c.position == first.position) = false :=
      beq_false_of_ne (Ne.symm (h first List.mem_cons_self))
    rw [List.cons_append, giveOut, List.lookup_cons, hne, List.foldl_cons]
    exact ih fun other hother => h other (List.mem_cons_of_mem _ hother)

/-- The plan is what is given out by the verdicts. -/
def OverloadPlan.Follows (plan : OverloadPlan) (verdict : Candidate → Except Fault FunctionNames)
    (functions : List Candidate) : Prop :=
  ∀ before c after, functions = before ++ c :: after →
    plan.names? c.position = some (award verdict (takenBy verdict before) c)

theorem OverloadPlan.follows (hplan : plan.entries = giveOut verdict [] functions)
    (hpositions : (functions.map (·.position)).Nodup) : plan.Follows verdict functions := by
  rintro before c after rfl
  rw [OverloadPlan.names?, hplan]
  refine lookup_giveOut fun other hother heq => ?_
  rw [List.map_append, List.map_cons] at hpositions
  refine (List.nodup_append'.mp hpositions).2.2 (List.mem_map_of_mem hother) ?_
  rw [heq]
  exact List.mem_cons_self

theorem award_ok (taken : List (String × String)) {c : Candidate} {names : FunctionNames}
    (h : verdict c = .ok names) :
    award verdict taken c = .ok names ∧ taken.lookup names.scriptName = none ∨
      ∃ first, award verdict taken c = .error (.duplicateName names.scriptName first) ∧
        taken.lookup names.scriptName = some first := by
  rw [award, h]
  dsimp only
  cases htaken : taken.lookup names.scriptName with
  | none => exact .inl ⟨rfl, rfl⟩
  | some first => exact .inr ⟨first, rfl, rfl⟩

theorem verdict_of_award {taken : List (String × String)} {c : Candidate} {names : FunctionNames}
    (h : award verdict taken c = .ok names) :
    verdict c = .ok names ∧ taken.lookup names.scriptName = none := by
  cases hverdict : verdict c with
  | error fault =>
    rw [award, hverdict] at h
    cases h
  | ok asked =>
    rcases award_ok taken hverdict with ⟨hok, hfree⟩ | ⟨first, hduplicate, -⟩
    · rw [hok] at h
      cases h
      exact ⟨rfl, hfree⟩
    · rw [hduplicate] at h
      cases h

/-- A name is taken exactly if one of the functions so far holds it. -/
theorem OverloadPlan.Follows.taken_iff (hplan : plan.Follows verdict functions)
    {name first : String} {before after : List Candidate} (hsplit : functions = before ++ after) :
    (takenBy verdict before).lookup name = some first ↔
      ∃ holder ∈ before, plan.Holds holder name ∧ holder.function.name = first := by
  induction before using List.reverseRecOn generalizing after first with
  | nil => simp [takenBy]
  | append_singleton before c ih =>
    rw [List.append_assoc, List.singleton_append] at hsplit
    have hgiven := hplan before c after hsplit
    have hbefore (first : String) : (takenBy verdict before).lookup name = some first ↔
        ∃ holder ∈ before, plan.Holds holder name ∧ holder.function.name = first := ih hsplit
    have hstep : takenBy verdict (before ++ [c]) = note verdict (takenBy verdict before) c := by
      rw [takenBy, List.foldl_append]
      rfl
    have hholders : (∃ holder ∈ before ++ [c], plan.Holds holder name ∧ holder.function.name = first) ↔
        (∃ holder ∈ before, plan.Holds holder name ∧ holder.function.name = first) ∨
          plan.Holds c name ∧ c.function.name = first := by
      simp only [List.mem_append, List.mem_singleton, or_and_right, exists_or, exists_eq_left]
    rw [hstep, note, hholders]
    cases haward : award verdict (takenBy verdict before) c with
    | error fault =>
      have hnot : ¬ plan.Holds c name := by
        rintro ⟨names, hnames, -⟩
        rw [hgiven, haward] at hnames
        cases hnames
      rw [hbefore]
      simp [hnot]
    | ok names =>
      have hholds : plan.Holds c name ↔ names.scriptName = name := by
        simp [Holds, hgiven, haward]
      dsimp only
      rw [List.lookup_cons, hholds]
      by_cases hname : names.scriptName = name
      · subst hname
        -- it was free, so nobody before holds it
        have hfree := (verdict_of_award haward).2
        have hnobody : ¬ ∃ holder ∈ before, plan.Holds holder names.scriptName ∧
            holder.function.name = first := by
          rw [← hbefore, hfree]
          simp
        simp [hnobody]
      · rw [beq_false_of_ne (Ne.symm hname), hbefore]
        simp [hname]

end

/-! ## First come, first served -/

/-- The names that are registered for a function, if it is given names. -/
def OverloadPlan.keysOf (plan : OverloadPlan) (n : Naming) (c : Candidate) : List String :=
  match plan.names? c.position with
  | some (.ok names) => n.registeredNames names.scriptName
  | _ => []

/-- The names that are registered for some functions, in order. -/
def OverloadPlan.keys (plan : OverloadPlan) (n : Naming) (functions : List Candidate) : List String :=
  functions.flatMap (plan.keysOf n)

theorem OverloadPlan.mem_keysOf {plan : OverloadPlan} {n : Naming} {c : Candidate} {key : String} :
    key ∈ plan.keysOf n c ↔
      ∃ names, plan.names? c.position = some (.ok names) ∧ key ∈ n.registeredNames names.scriptName := by
  unfold OverloadPlan.keysOf
  split
  · rename_i names hnames
    simp [hnames]
  · rename_i hnone
    refine ⟨fun h => absurd h List.not_mem_nil, ?_⟩
    rintro ⟨names, hnames, -⟩
    exact absurd hnames (hnone names)

/-- What a plan makes of some functions, by the categories in a memo. -/
structure OverloadPlan.Serves (plan : OverloadPlan) (ctx : Context) (m : Memo)
    (functions : List Candidate) : Prop where
  /-- Nothing is registered twice, aliases of reserved words included. -/
  keys : (plan.keys ctx.naming functions).Nodup
  /-- A function collides, is given the name it is to have or is refused it. -/
  answered : ∀ c ∈ functions,
    plan.names? c.position = some (.error (.overloadCollision (c.base ctx) (c.suffix ctx m))) ∨
      plan.Holds c (c.wanted ctx m functions) ∨
      ∃ first, plan.names? c.position =
        some (.error (.duplicateName (c.wanted ctx m functions) first))
  collision : ∀ c ∈ functions,
    plan.names? c.position = some (.error (.overloadCollision (c.base ctx) (c.suffix ctx m))) ↔
      c.Collides ctx m functions
  /-- A name is refused if a function before holds it, and that function is told. -/
  duplicate : ∀ before c after, functions = before ++ c :: after → ¬ c.Collides ctx m functions →
    ∀ first, plan.names? c.position =
        some (.error (.duplicateName (c.wanted ctx m functions) first)) ↔
      ∃ holder ∈ before, plan.Holds holder (c.wanted ctx m functions) ∧ holder.function.name = first
  /-- Of those that do not collide and are to have one name, the first one holds it. -/
  first : ∀ before c after, functions = before ++ c :: after → ¬ c.Collides ctx m functions →
    (plan.Holds c (c.wanted ctx m functions) ↔
      ∀ other ∈ before, ¬ other.Collides ctx m functions →
        other.wanted ctx m functions ≠ c.wanted ctx m functions)

section

variable {ctx : Context} {m : Memo} {functions : List Candidate} {plan : OverloadPlan}

theorem OverloadPlan.Follows.verdict_of_ok (hplan : plan.Follows (Candidate.verdict ctx m functions) functions)
    {c : Candidate} (hc : c ∈ functions) {names : FunctionNames}
    (h : plan.names? c.position = some (.ok names)) :
    ¬ c.Collides ctx m functions ∧ names.scriptName = c.wanted ctx m functions := by
  obtain ⟨before, after, hsplit⟩ := List.append_of_mem hc
  rw [hplan before c after hsplit, Option.some.injEq] at h
  have hverdict := (verdict_of_award h).1
  rcases verdict_cases ctx m functions c with hfault | hnames
  · rw [hfault] at hverdict
    cases hverdict
  · refine ⟨(verdict_ok_iff hc).mp hnames, ?_⟩
    obtain ⟨names', hnames', hname⟩ := hnames
    rw [hverdict] at hnames'
    cases hnames'
    exact hname

/-- What becomes of a function that does not collide. -/
theorem OverloadPlan.Follows.turn (hplan : plan.Follows (Candidate.verdict ctx m functions) functions)
    {before after : List Candidate} {c : Candidate} (hsplit : functions = before ++ c :: after)
    (hfree : ¬ c.Collides ctx m functions) :
    (plan.Holds c (c.wanted ctx m functions) ∧
      ¬ ∃ holder ∈ before, plan.Holds holder (c.wanted ctx m functions)) ∨
    ∃ first, plan.names? c.position =
        some (.error (.duplicateName (c.wanted ctx m functions) first)) ∧
      ∃ holder ∈ before, plan.Holds holder (c.wanted ctx m functions) ∧
        holder.function.name = first := by
  have hc : c ∈ functions := by simp [hsplit]
  obtain ⟨names, hverdict, hname⟩ := (verdict_ok_iff hc).mpr hfree
  have hgiven := hplan before c after hsplit
  rw [← hname]
  rcases award_ok (takenBy (Candidate.verdict ctx m functions) before) hverdict with
    ⟨hok, hnone⟩ | ⟨first, hduplicate, hsome⟩
  · refine .inl ⟨⟨names, by rw [hgiven, hok], rfl⟩, ?_⟩
    rintro ⟨holder, hholder, hholds⟩
    have htaken := (hplan.taken_iff hsplit).mpr ⟨holder, hholder, hholds, rfl⟩
    rw [hnone] at htaken
    cases htaken
  · exact .inr ⟨first, by rw [hgiven, hduplicate], (hplan.taken_iff hsplit).mp hsome⟩

/-- A name that a function is to have that does not collide is held by it or by one before it. -/
theorem OverloadPlan.Follows.held (hplan : plan.Follows (Candidate.verdict ctx m functions) functions)
    {before after : List Candidate} (hsplit : functions = before ++ after) {other : Candidate}
    (hother : other ∈ before) (hfree : ¬ other.Collides ctx m functions) :
    ∃ holder ∈ before, plan.Holds holder (other.wanted ctx m functions) := by
  obtain ⟨earlier, later, rfl⟩ := List.append_of_mem hother
  have hsplit' : functions = earlier ++ other :: (later ++ after) := by simpa using hsplit
  rcases hplan.turn hsplit' hfree with ⟨hholds, -⟩ | ⟨-, -, holder, hholder, hholds, -⟩
  · exact ⟨other, hother, hholds⟩
  · exact ⟨holder, List.mem_append_left _ hholder, hholds⟩

/-- Two functions never hold one name. -/
theorem OverloadPlan.Follows.holders_apart
    (hplan : plan.Follows (Candidate.verdict ctx m functions) functions) {c c' : Candidate}
    (hc : c ∈ functions) (hc' : c' ∈ functions) (hp : c.position ≠ c'.position) {name : String}
    (h : plan.Holds c name) : ¬ plan.Holds c' name := by
  -- the one that comes later would have been refused
  have later {before after : List Candidate} {c c' : Candidate}
      (hsplit : functions = before ++ c :: after) (hc' : c' ∈ before) (h : plan.Holds c name) :
      ¬ plan.Holds c' name := by
    intro h'
    obtain ⟨names, hnames, rfl⟩ := h
    obtain ⟨hfree, hname⟩ := hplan.verdict_of_ok (by simp [hsplit]) hnames
    rw [hname] at h'
    rcases hplan.turn hsplit hfree with ⟨-, hnobody⟩ | ⟨first, hduplicate, -⟩
    · exact hnobody ⟨c', hc', h'⟩
    · rw [hnames] at hduplicate
      cases hduplicate
  obtain ⟨before, after, hsplit⟩ := List.append_of_mem hc
  rw [hsplit] at hc'
  rcases List.mem_append.mp hc' with hc' | hc'
  · exact later hsplit hc' h
  · rcases List.mem_cons.mp hc' with rfl | hc'
    · exact absurd rfl hp
    · obtain ⟨between, after', rfl⟩ := List.append_of_mem hc'
      intro h'
      have hsplit' : functions = (before ++ c :: between) ++ c' :: after' := by simpa using hsplit
      exact later hsplit' (by simp) h' h

/-- A name is the script name before suffixes, with a suffix unless the function is alone. -/
theorem wanted_toList (ctx : Context) (m : Memo) (functions : List Candidate) (c : Candidate) :
    ∃ tail,
    (c.wanted ctx m functions).toList = (c.base ctx).toList ++ tail ∧
      (tail = [] ∨ ∃ rest, tail = '_' :: rest) ∧
      (1 < (c.group ctx functions).length → tail ≠ []) := by
  unfold Candidate.wanted
  split
  · obtain ⟨rest, hrest⟩ : ∃ rest, (c.suffix ctx m).toList = '_' :: rest := suffixOf_begins _ _
    exact ⟨_, String.toList_append, .inr ⟨rest, hrest⟩, fun _ => by simp [hrest]⟩
  · rename_i halone
    exact ⟨[], (List.append_nil _).symm, .inl rfl, fun h => absurd h halone⟩

/-- Nobody is to have the alias of a reserved word that another function is to have. -/
theorem wanted_ne_alias {c c' : Candidate} (hc : c ∈ functions) (hc' : c' ∈ functions)
    (hp : c.position ≠ c'.position)
    (hword : isScriptKeyword (c'.wanted ctx m functions) = true) :
    c.wanted ctx m functions ≠ c'.wanted ctx m functions ++ "_" := by
  intro heq
  obtain ⟨tail, htail, hbegins, -⟩ := wanted_toList ctx m functions c
  obtain ⟨tail', htail', hbegins', hsuffixed⟩ :=
    wanted_toList ctx m functions c'
  have halias : (c.base ctx).toList ++ tail = (c'.wanted ctx m functions).toList ++ ['_'] := by
    rw [← htail, heq, String.toList_append]
    rfl
  have hbase := (eq_base_of_renamed hword (functionName_last _ _) hbegins halias).1
  have hword' := suffix_eq_nil_of_keyword hword hbegins' htail'.symm
  rw [hword', List.append_nil] at htail'
  -- both have the word for their script name, so neither is alone with it
  have hsame : c.base ctx = c'.base ctx := String.toList_inj.mp (hbase.trans htail')
  exact hsuffixed (one_lt_group hc' hc hp hsame) hword'

/-- **No name is registered for two functions**, aliases of reserved words included. -/
theorem OverloadPlan.Follows.keys_apart
    (hplan : plan.Follows (Candidate.verdict ctx m functions) functions) {c c' : Candidate}
    (hc : c ∈ functions) (hc' : c' ∈ functions) (hp : c.position ≠ c'.position) :
    (plan.keysOf ctx.naming c).Disjoint (plan.keysOf ctx.naming c') := by
  intro key hkey hkey'
  obtain ⟨names, hnames, hkey⟩ := OverloadPlan.mem_keysOf.mp hkey
  obtain ⟨names', hnames', hkey'⟩ := OverloadPlan.mem_keysOf.mp hkey'
  have hname := (hplan.verdict_of_ok hc hnames).2
  have hname' := (hplan.verdict_of_ok hc' hnames').2
  have hne : names.scriptName ≠ names'.scriptName := fun heq =>
    hplan.holders_apart hc hc' hp ⟨names, hnames, rfl⟩ ⟨names', hnames', heq.symm⟩
  rw [hname, hname'] at hne
  rw [hname] at hkey
  rw [hname'] at hkey'
  rcases mem_registeredNames hkey with rfl | ⟨hword, rfl⟩
  · rcases mem_registeredNames hkey' with heq | ⟨hword', heq⟩
    · exact hne heq
    · exact wanted_ne_alias hc hc' hp hword' heq
  · rcases mem_registeredNames hkey' with heq | ⟨-, heq⟩
    · exact wanted_ne_alias hc' hc (Ne.symm hp) hword heq.symm
    · exact hne ((String.append_left_inj _).mp heq)

theorem OverloadPlan.Follows.keys_nodup
    (hplan : plan.Follows (Candidate.verdict ctx m functions) functions)
    (hpositions : (functions.map (·.position)).Nodup) :
    (plan.keys ctx.naming functions).Nodup := by
  rw [OverloadPlan.keys, List.nodup_flatMap]
  constructor
  · intro c _
    unfold OverloadPlan.keysOf
    split
    · exact registeredNames_nodup _ _
    · exact List.nodup_nil
  · exact (List.pairwise_map.mp hpositions).imp_of_mem fun hc hc' hp => hplan.keys_apart hc hc' hp

/-- The fault of functions that collide goes to them alone. -/
theorem OverloadPlan.Follows.collision_iff
    (hplan : plan.Follows (Candidate.verdict ctx m functions) functions) {c : Candidate}
    (hc : c ∈ functions) :
    plan.names? c.position = some (.error (.overloadCollision (c.base ctx) (c.suffix ctx m))) ↔
      c.Collides ctx m functions := by
  rw [← verdict_error_iff hc]
  obtain ⟨before, after, hsplit⟩ := List.append_of_mem hc
  rw [hplan before c after hsplit, Option.some.injEq]
  cases hverdict : c.verdict ctx m functions with
  | error fault => rw [award, hverdict]
  | ok names =>
    rcases award_ok (takenBy (Candidate.verdict ctx m functions) before) hverdict with
      ⟨hok, -⟩ | ⟨first, hduplicate, -⟩
    · simp [hok]
    · simp [hduplicate]

theorem OverloadPlan.Follows.serves
    (hplan : plan.Follows (Candidate.verdict ctx m functions) functions)
    (hpositions : (functions.map (·.position)).Nodup) : plan.Serves ctx m functions where
  keys := hplan.keys_nodup hpositions
  answered := by
    intro c hc
    by_cases hcollides : c.Collides ctx m functions
    · exact .inl ((hplan.collision_iff hc).mpr hcollides)
    · obtain ⟨before, after, hsplit⟩ := List.append_of_mem hc
      rcases hplan.turn hsplit hcollides with ⟨hholds, -⟩ | ⟨first, hrefused, -⟩
      · exact .inr (.inl hholds)
      · exact .inr (.inr ⟨first, hrefused⟩)
  collision := fun c hc => hplan.collision_iff hc
  duplicate := by
    intro before c after hsplit hfree first
    rcases hplan.turn hsplit hfree with ⟨⟨names, hnames, -⟩, hnobody⟩ | ⟨first', hgiven, hheld⟩
    · rw [hnames]
      constructor
      · intro h
        cases h
      · rintro ⟨holder, hholder, hholds, -⟩
        exact absurd ⟨holder, hholder, hholds⟩ hnobody
    · rw [hgiven, Option.some.injEq, Except.error.injEq, Fault.duplicateName.injEq]
      refine ⟨fun h => h.2 ▸ hheld, fun h => ⟨rfl, ?_⟩⟩
      -- whoever holds the name is the one that is told
      have htaken := (hplan.taken_iff hsplit).mpr h
      rw [(hplan.taken_iff hsplit).mpr hheld] at htaken
      exact Option.some.inj htaken
  first := by
    intro before c after hsplit hfree
    rcases hplan.turn hsplit hfree with ⟨hholds, hnobody⟩ | ⟨first, hgiven, holder, hholder, hholds, -⟩
    · refine ⟨fun _ other hother hfree' hsame => hnobody ?_, fun _ => hholds⟩
      rw [← hsame]
      exact hplan.held hsplit hother hfree'
    · constructor
      · rintro ⟨names, hnames, -⟩
        rw [hnames] at hgiven
        cases hgiven
      · intro hnone
        obtain ⟨names, hnames, hname⟩ := hholds
        obtain ⟨hfree', hwanted⟩ := hplan.verdict_of_ok (by simp [hsplit, hholder]) hnames
        exact absurd (hwanted.symm.trans hname) (hnone holder hholder hfree')

end

/-- **Names are given out first come, first served**: whatever was classified before, and by all that the
classifier says from then on. -/
theorem overload_plan_serves (ctx : Context) (functions : List Candidate)
    (hpositions : (functions.map (·.position)).Nodup) (m M : Memo)
    (hM : ((OverloadPlan.build ctx functions).run m).2.Grows M) :
    ((OverloadPlan.build ctx functions).run m).1.Serves ctx M functions :=
  (OverloadPlan.follows (build_giveOut (by rfl) hM) hpositions).serves hpositions

/-- Functions of one parameter each, given by their names and its type. -/
def crowd (functions : List (String × String)) : List Candidate :=
  functions.zipIdx.map fun ((name, type), position) =>
    ⟨position, { name := name, type := "void (" ++ type ++ ")", returnType := "void",
                 params := [⟨"x", type, false, false, false⟩], variadic := false }⟩

/-- A reserved word, overloads, a function that has the name of one of them, and two that differ in
capitals only. -/
def namesakes : List Candidate :=
  crowd [("End", "int"), ("Text", "int"), ("Text", "float"), ("text_int", "bool"),
    ("Button", "int"), ("button", "int")]

def emptyContext : Context := Classifying.fresh (Context.build {} {})

/-- Their plan, and what was classified for it. -/
def namesakePlan : OverloadPlan × Memo := (OverloadPlan.build emptyContext namesakes).run {}

theorem overload_plan_serves_namesakes :
    ((namesakes.map (·.position)).Nodup ∧ namesakePlan.2.Grows namesakePlan.2) ∧
      namesakePlan.1.Serves emptyContext namesakePlan.2 namesakes ∧
      namesakePlan.1.keys emptyContext.naming namesakes =
        ["end", "end_", "text_int", "text_float"] ∧
      namesakePlan.1.names? 3 = some (.error (.duplicateName "text_int" "Text")) ∧
      namesakePlan.1.names? 5 = some (.error (.overloadCollision "button" "_int")) :=
  have hpositions : (namesakes.map (·.position)).Nodup := by decide
  ⟨⟨hpositions, Memo.Grows.refl _⟩,
    overload_plan_serves emptyContext namesakes hpositions {} _ (Memo.Grows.refl _),
    by decide +kernel, by decide +kernel, by decide +kernel⟩

end LuaGlue
