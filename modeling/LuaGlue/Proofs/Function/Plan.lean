import LuaGlue.Function.Overload
import LuaGlue.Proofs.Classifier.Memo

/-!
# The overload plan

What the plan gives a function is its native name with a suffix or without (`Named`). A suffix is a
function of the categories the memo has for the parameters, so it stays what it is (`HasSuffix`), and of
two functions of one script name that are both given names, each has a suffix of its own. It follows
that functions of one native name never share a name in C (`named_apart`).
-/

set_option autoImplicit false

namespace LuaGlue

/-! ## Suffixes -/

/-- By the categories in the memo, the function has this suffix. -/
def HasSuffix (ctx : Context) (m : Memo) (f : FunctionDecl) (suffix : String) : Prop :=
  ∃ categories : List Category, f.params.map (fun p => m.find? p.type) = categories.map some ∧
    suffix = suffixOf ctx.naming categories

variable {ctx : Context} {m m' : Memo}

theorem known_mono {spellings : List String} {categories : List Category} (hm : m.Grows m')
    (h : spellings.map m.find? = categories.map some) :
    spellings.map m'.find? = categories.map some := by
  induction spellings generalizing categories with
  | nil => simpa using h
  | cons spelling rest ih =>
    cases categories with
    | nil => exact absurd h (by simp)
    | cons c categories =>
      rw [List.map_cons, List.map_cons, List.cons.injEq] at h
      rw [List.map_cons, List.map_cons, hm _ _ h.1, ih h.2]

theorem HasSuffix.mono {f : FunctionDecl} {suffix : String} (h : HasSuffix ctx m f suffix)
    (hm : m.Grows m') : HasSuffix ctx m' f suffix := by
  obtain ⟨categories, hcategories, rfl⟩ := h
  refine ⟨categories, ?_, rfl⟩
  have h' : (f.params.map (·.type)).map m'.find? = categories.map some :=
    known_mono hm (by rwa [List.map_map])
  rwa [List.map_map] at h'

theorem HasSuffix.unique {f : FunctionDecl} {suffix suffix' : String}
    (h : HasSuffix ctx m f suffix) (h' : HasSuffix ctx m f suffix') : suffix = suffix' := by
  obtain ⟨categories, hcategories, rfl⟩ := h
  obtain ⟨categories', hcategories', rfl⟩ := h'
  have heq : categories.map some = categories'.map some := by rw [← hcategories, hcategories']
  rw [List.map_inj_right (fun _ _ h => Option.some.inj h) |>.mp heq]

theorem classifyAll_known {f : Param → String} :
    ∀ {params : List Param} {categories : List Category} {m m' : Memo},
      (params.mapM fun p => ctx.classify (f p)).run m = (categories, m') →
      params.map (fun p => m'.find? (f p)) = categories.map some := by
  intro params
  induction params with
  | nil =>
    intro categories m m' h
    obtain ⟨rfl, -⟩ := Classifying.run_pure_eq.mp h
    rfl
  | cons p rest ih =>
    intro categories m m' h
    rw [List.mapM_cons] at h
    obtain ⟨c, m₁, hask, h₁⟩ := Classifying.run_bind_eq.mp h
    obtain ⟨categories', m₂, hrest, hreturn⟩ := Classifying.run_bind_eq.mp h₁
    obtain ⟨rfl, rfl⟩ := Classifying.run_pure_eq.mp hreturn
    have hc : m₁.find? (f p) = some c := classify_answered hask
    have hgrows : m₁.Grows m' :=
      (Classifying.Grows.mapM (fun p => classify_grows ctx.index (f p)) rest).of_run hrest
    rw [List.map_cons, List.map_cons, hgrows _ _ hc, ih hrest]

theorem overloadSuffix_grows (ctx : Context) (f : FunctionDecl) : (overloadSuffix ctx f).Grows :=
  (Classifying.Grows.mapM (fun _ => classify_grows ctx.index _) f.params).bind fun _ => .pure _

theorem overloadSuffix_has {f : FunctionDecl} {suffix : String}
    (h : (overloadSuffix ctx f).run m = (suffix, m')) : HasSuffix ctx m' f suffix := by
  obtain ⟨categories, m₁, hask, hreturn⟩ := Classifying.run_bind_eq.mp h
  obtain ⟨rfl, rfl⟩ := Classifying.run_pure_eq.mp hreturn
  exact ⟨categories, classifyAll_known hask, rfl⟩

/-! ## Names of one function -/

/-- The names a function is given by the plan: with a suffix that no other function of its script name
has, or without one if there is no other. -/
def Named (ctx : Context) (m : Memo) (group : List Candidate) (c : Candidate)
    (names : FunctionNames) : Prop :=
  (group.length ≤ 1 ∧ names.cName = "l_" ++ c.function.name) ∨
    ∃ suffix, HasSuffix ctx m c.function suffix ∧ names.cName = "l_" ++ c.function.name ++ suffix ∧
      ∀ other ∈ group, other.position ≠ c.position →
        ∃ suffix', HasSuffix ctx m other.function suffix' ∧ suffix' ≠ suffix

theorem Named.mono {group : List Candidate} {c : Candidate} {names : FunctionNames}
    (h : Named ctx m group c names) (hm : m.Grows m') : Named ctx m' group c names := by
  rcases h with h | ⟨suffix, hsuffix, hname, hothers⟩
  · exact .inl h
  · refine .inr ⟨suffix, hsuffix.mono hm, hname, fun other ho hp => ?_⟩
    obtain ⟨suffix', hsuffix', hne⟩ := hothers other ho hp
    exact ⟨suffix', hsuffix'.mono hm, hne⟩

theorem Named.prefix {group : List Candidate} {c : Candidate} {names : FunctionNames}
    (h : Named ctx m group c names) : ∃ rest, names.cName = "l_" ++ rest := by
  rcases h with ⟨-, h⟩ | ⟨suffix, -, h, -⟩
  · exact ⟨_, h⟩
  · exact ⟨c.function.name ++ suffix, by rw [h, String.append_assoc]⟩

/-- **Two functions of one script name and one native name have different names in C.** -/
theorem named_apart {group : List Candidate} {c c' : Candidate} {names names' : FunctionNames}
    (h : Named ctx m group c names) (h' : Named ctx m group c' names') (hc : c ∈ group)
    (hc' : c' ∈ group) (hp : c.position ≠ c'.position) (hf : c.function.name = c'.function.name) :
    names.cName ≠ names'.cName := by
  -- with two of them in the group, both were given suffixes
  have several : 1 < group.length := by
    rcases hc with _ | ⟨_, hc⟩
    · rcases hc' with _ | ⟨_, hc'⟩
      · exact absurd rfl hp
      · exact Nat.succ_lt_succ (List.length_pos_of_mem hc')
    · exact Nat.succ_lt_succ (List.length_pos_of_mem hc)
  rcases h with ⟨hone, -⟩ | ⟨suffix, hsuffix, hname, hothers⟩
  · omega
  rcases h' with ⟨hone, -⟩ | ⟨suffix', hsuffix', hname', -⟩
  · omega
  obtain ⟨other, hother, hne⟩ := hothers c' hc' (Ne.symm hp)
  rw [hname, hname', hf]
  intro heq
  apply hne
  rw [hother.unique hsuffix']
  exact (String.append_right_inj _).mp heq.symm

/-- Whether the suffix of another function is this one. -/
def sameSuffix (ctx : Context) (suffix : String) (other : Candidate) : Classifying Bool := do
  return (← overloadSuffix ctx other.function) == suffix

theorem sameSuffix_grows (ctx : Context) (suffix : String) (other : Candidate) :
    (sameSuffix ctx suffix other).Grows :=
  (overloadSuffix_grows ctx other.function).bind fun _ => .pure _

theorem noneSame_suffixes {suffix : String} :
    ∀ {others : List Candidate} {m m' : Memo},
      (others.anyM (sameSuffix ctx suffix)).run m = (false, m') →
      ∀ other ∈ others, ∃ suffix', HasSuffix ctx m' other.function suffix' ∧ suffix' ≠ suffix := by
  intro others
  induction others with
  | nil =>
    intro m m' _ other hother
    exact absurd hother List.not_mem_nil
  | cons first rest ih =>
    intro m m' h other hother
    obtain ⟨found, m₁, hfirst, hrest⟩ := Classifying.run_bind_eq.mp h
    cases found with
    | true =>
      obtain ⟨habsurd, -⟩ := Classifying.run_pure_eq.mp hrest
      exact absurd habsurd (by simp)
    | false =>
      have hgrows : m₁.Grows m' :=
        (Classifying.Grows.anyM (sameSuffix_grows ctx suffix) rest).of_run hrest
      rcases List.mem_cons.mp hother with rfl | hother
      · obtain ⟨suffix', m₂, hsuffix, hreturn⟩ := Classifying.run_bind_eq.mp hfirst
        obtain ⟨hne, rfl⟩ := Classifying.run_pure_eq.mp hreturn
        exact ⟨suffix', (overloadSuffix_has hsuffix).mono hgrows, by simpa using hne⟩
      · exact ih hrest other hother

theorem ownNames_grows (ctx : Context) (base : String) (group : List Candidate) (c : Candidate) :
    (c.ownNames ctx base group).Grows := by
  unfold Candidate.ownNames
  split
  · refine (overloadSuffix_grows ctx c.function).bind fun suffix => ?_
    refine (Classifying.Grows.anyM (sameSuffix_grows ctx suffix) _).bind fun collides => ?_
    split <;> exact .pure _
  · exact .pure _

theorem ownNames_named {base : String} {group : List Candidate} {c : Candidate}
    {names : FunctionNames} (h : (c.ownNames ctx base group).run m = (.ok names, m')) :
    Named ctx m' group c names := by
  unfold Candidate.ownNames at h
  by_cases hone : group.length > 1
  · rw [if_pos hone] at h
    obtain ⟨suffix, m₁, hsuffix, h₁⟩ := Classifying.run_bind_eq.mp h
    obtain ⟨collides, m₂, hothers, hreturn⟩ := Classifying.run_bind_eq.mp h₁
    cases collides with
    | true =>
      obtain ⟨habsurd, -⟩ := Classifying.run_pure_eq.mp hreturn
      exact absurd habsurd (by simp)
    | false =>
      obtain ⟨heq, rfl⟩ := Classifying.run_pure_eq.mp hreturn
      cases heq
      have hgrows := (Classifying.Grows.anyM (sameSuffix_grows ctx suffix) _).of_run hothers
      refine .inr ⟨suffix, (overloadSuffix_has hsuffix).mono hgrows, rfl, fun other ho hp => ?_⟩
      exact noneSame_suffixes hothers other (List.mem_filter.mpr ⟨ho, by simpa using hp⟩)
  · rw [if_neg hone] at h
    obtain ⟨heq, -⟩ := Classifying.run_pure_eq.mp h
    cases heq
    exact .inl ⟨Nat.le_of_not_lt hone, rfl⟩

/-! ## The plan -/

/-- The functions of a script name. -/
def sharing (all : List (String × Candidate)) (base : String) : List Candidate :=
  (all.filter fun other => other.1 == base).map (·.2)

theorem planFrom_grows (ctx : Context) (all : List (String × Candidate)) :
    ∀ (rest : List (String × Candidate)) (taken : List (String × String)),
      (planFrom ctx all taken rest).Grows := by
  intro rest
  induction rest with
  | nil => intro _; exact .pure _
  | cons first rest ih =>
    intro taken
    refine (ownNames_grows ctx first.1 _ first.2).bind fun answer => ?_
    split
    · exact (ih _).bind fun _ => .pure _
    · split <;> exact (ih _).bind fun _ => .pure _

/-- **Whoever is given names in the plan is a candidate, and is named as it should be.** -/
theorem planFrom_named {all : List (String × Candidate)} :
    ∀ {rest : List (String × Candidate)} {taken : List (String × String)}
      {entries : List (Nat × Except Fault FunctionNames)} {m m' : Memo},
      (planFrom ctx all taken rest).run m = (entries, m') →
      ∀ position names, (position, .ok names) ∈ entries →
        ∃ e ∈ rest, e.2.position = position ∧ Named ctx m' (sharing all e.1) e.2 names := by
  intro rest
  induction rest with
  | nil =>
    intro taken entries m m' h position names hmem
    obtain ⟨rfl, -⟩ := Classifying.run_pure_eq.mp h
    exact absurd hmem List.not_mem_nil
  | cons first rest ih =>
    intro taken entries m m' h position names hmem
    obtain ⟨base, c⟩ := first
    obtain ⟨answer, m₁, hown, h₁⟩ := Classifying.run_bind_eq.mp h
    -- the entries after the first one, in each of the three cases: a fault, a name taken, a name given
    have later {taken : List (String × String)} {entry : Nat × Except Fault FunctionNames}
        {entries' : List (Nat × Except Fault FunctionNames)}
        (hrest : (do return entry :: (← planFrom ctx all taken rest) :
          Classifying (List (Nat × Except Fault FunctionNames))).run m₁ = (entries', m')) :
        m₁.Grows m' ∧ ∀ position names, (position, .ok names) ∈ entries' →
          (position, .ok names) = entry ∨
            ∃ e ∈ (base, c) :: rest, e.2.position = position ∧
              Named ctx m' (sharing all e.1) e.2 names := by
      obtain ⟨others, m₂, hothers, hreturn⟩ := Classifying.run_bind_eq.mp hrest
      obtain ⟨rfl, rfl⟩ := Classifying.run_pure_eq.mp hreturn
      refine ⟨(planFrom_grows ctx all rest taken).of_run hothers, fun position names hmem => ?_⟩
      rcases List.mem_cons.mp hmem with heq | hmem
      · exact .inl heq
      · obtain ⟨e, he, hfacts⟩ := ih hothers position names hmem
        exact .inr ⟨e, List.mem_cons_of_mem _ he, hfacts⟩
    cases answer with
    | error fault =>
      rcases (later h₁).2 position names hmem with heq | hfound
      · exact absurd heq (by simp)
      · exact hfound
    | ok given =>
      have hnamed : Named ctx m₁ (sharing all base) c given := ownNames_named hown
      dsimp only at h₁
      split at h₁
      · rcases (later h₁).2 position names hmem with heq | hfound
        · exact absurd heq (by simp)
        · exact hfound
      · obtain ⟨hgrows, hentries⟩ := later h₁
        rcases hentries position names hmem with heq | hfound
        · cases heq
          exact ⟨(base, c), List.mem_cons_self, rfl, hnamed.mono hgrows⟩
        · exact hfound

/-- The functions that share the script name of one. -/
def Candidate.group (ctx : Context) (functions : List Candidate) (c : Candidate) : List Candidate :=
  sharing (functions.map fun c => (ctx.naming.functionName c.function.name, c))
    (ctx.naming.functionName c.function.name)

/-- Functions of one native name share their script name. -/
theorem mem_group {functions : List Candidate} {c c' : Candidate} (hc : c' ∈ functions)
    (hname : c'.function.name = c.function.name) : c' ∈ c.group ctx functions := by
  refine List.mem_map.mpr ⟨(ctx.naming.functionName c'.function.name, c'), ?_, rfl⟩
  refine List.mem_filter.mpr ⟨List.mem_map.mpr ⟨c', hc, rfl⟩, ?_⟩
  rw [hname]
  exact beq_self_eq_true _

theorem OverloadPlan.build_named {functions : List Candidate} {plan : OverloadPlan} {position : Nat}
    {names : FunctionNames} (h : (OverloadPlan.build ctx functions).run m = (plan, m'))
    (hplan : plan.names? position = some (.ok names)) :
    ∃ c ∈ functions, c.position = position ∧ Named ctx m' (c.group ctx functions) c names := by
  obtain ⟨entries, m₁, hentries, hreturn⟩ := Classifying.run_bind_eq.mp h
  obtain ⟨rfl, rfl⟩ := Classifying.run_pure_eq.mp hreturn
  obtain ⟨before, after, heq, -⟩ := List.lookup_eq_some_iff.mp hplan
  have hmem : (position, .ok names) ∈ entries := by
    rw [show entries = before ++ (position, .ok names) :: after from heq]
    simp
  obtain ⟨e, he, hposition, hnamed⟩ := planFrom_named hentries position names hmem
  obtain ⟨c, hc, rfl⟩ := List.mem_map.mp he
  exact ⟨c, hc, hposition, hnamed⟩

theorem OverloadPlan.build_grows (ctx : Context) (functions : List Candidate) :
    (OverloadPlan.build ctx functions).Grows :=
  (planFrom_grows ctx _ _ _).bind fun _ => .pure _

end LuaGlue
