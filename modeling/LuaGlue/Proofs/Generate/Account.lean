import LuaGlue.Proofs.Function.ScriptNames
import LuaGlue.Proofs.Generate.Entries
import LuaGlue.Proofs.Generate.Names
import LuaGlue.Proofs.Interface.Loaded

/-!
# Every declaration is accounted for

Each declaration that is to have glue is entered once, at its place: as a chunk and a binding or as a
problem and a comment. There is one gap, and it is named exactly (`declarations_accounted_iff`). Structs
and enums claim names from each other, and a struct does so also when it has no glue itself; what comes
second is then lost without a problem (`enum_lost`).
-/

set_option autoImplicit false

namespace LuaGlue

/-! ## Before the declarations are gone through -/

section

variable {i : Interface} {m : Manifest} {ctx ctx' : Context} {m₀ m₁ : Memo}

theorem findBound_grows (index : TypeIndex) (m : Manifest) (structs : List StructDecl) :
    (Context.findBound index m structs).Grows := by
  induction structs with
  | nil => exact .pure _
  | cons s rest ih =>
    unfold Context.findBound
    split
    · exact ih
    · refine (classify_grows index s.name).bind fun c => ?_
      split
      · exact ih.bind fun _ => .pure _
      · exact ih.bind fun _ => .pure _
      · exact ih

/-- The structs that are bound are those that are to have glue. -/
theorem findBound_iff {index : TypeIndex} : ∀ {structs : List StructDecl} {bound : List String}
    {m₀ m₁ M : Memo}, (Context.findBound index m structs).run m₀ = (bound, m₁) → m₁.Grows M →
      ∀ name, name ∈ bound ↔
        ∃ s ∈ structs, s.name = name ∧ (Declaration.struct s).isDue m M = true := by
  intro structs
  induction structs with
  | nil =>
    intro bound m₀ m₁ M h _ name
    obtain ⟨rfl, -⟩ := Classifying.run_pure_eq.mp h
    simp
  | cons s rest ih =>
    intro bound m₀ m₁ M h hM name
    simp only [List.mem_cons, or_and_right, exists_or, exists_eq_left]
    -- a struct that is bound is to have glue, one that is passed over is not
    have taking {m₂ : Memo} (h : (do return s.name :: (← Context.findBound index m rest) :
        Classifying (List String)).run m₂ = (bound, m₁))
        (hdue : (Declaration.struct s).isDue m M = true) :
        name ∈ bound ↔ (s.name = name ∧ (Declaration.struct s).isDue m M = true) ∨
          ∃ s' ∈ rest, s'.name = name ∧ (Declaration.struct s').isDue m M = true := by
      obtain ⟨others, m₃, hothers, hreturn⟩ := Classifying.run_bind_eq.mp h
      obtain ⟨rfl, rfl⟩ := Classifying.run_pure_eq.mp hreturn
      rw [List.mem_cons, ih hothers hM, hdue, @eq_comm _ name, and_iff_left rfl]
    have passing {m₂ : Memo} (h : (Context.findBound index m rest).run m₂ = (bound, m₁))
        (hdue : (Declaration.struct s).isDue m M = false) :
        name ∈ bound ↔ (s.name = name ∧ (Declaration.struct s).isDue m M = true) ∨
          ∃ s' ∈ rest, s'.name = name ∧ (Declaration.struct s').isDue m M = true := by
      rw [ih h hM, hdue]
      simp
    unfold Context.findBound at h
    cases hskipped : m.isStructSkipped s.name with
    | true =>
      rw [if_pos hskipped] at h
      exact passing h (by simp [Declaration.isDue, hskipped])
    | false =>
      rw [if_neg (by simp [hskipped])] at h
      obtain ⟨c, m₂, hclassify, hrest⟩ := Classifying.run_bind_eq.mp h
      have hdue (hgrows : m₂.Grows M) :
          (Declaration.struct s).isDue m M = Category.isOwnStruct c := by
        simp [Declaration.isDue, hskipped, hgrows _ _ (classify_answered hclassify)]
      split at hrest
      · have hgrows := ((findBound_grows index m rest).bind fun _ => .pure _).of_run hrest
        exact taking hrest (hdue (hgrows.trans hM))
      · have hgrows := ((findBound_grows index m rest).bind fun _ => .pure _).of_run hrest
        exact taking hrest (hdue (hgrows.trans hM))
      · rename_i huserdata hrange
        have hgrows := (findBound_grows index m rest).of_run hrest
        refine passing hrest ((hdue (hgrows.trans hM)).trans ?_)
        unfold Category.isOwnStruct
        split
        · exact absurd rfl (huserdata _)
        · exact absurd rfl (hrange _)
        · rfl

/-- Settling loses no struct: those that were bound have failed or are bound still. -/
theorem settleWithin_names : ∀ {rounds : Nat} {ctx ctx' : Context} {failed : List (String × Fault)}
    {m₀ m₁ : Memo} {settled : Settled},
      (settleWithin rounds ctx failed).run m₀ = ((ctx', settled), m₁) →
      ∀ name, name ∈ settled.failed.map (·.1) ∨ ctx'.isBound name = true ↔
        name ∈ failed.map (·.1) ∨ ctx.isBound name = true := by
  intro rounds
  induction rounds with
  | zero =>
    intro ctx ctx' failed m₀ m₁ settled h name
    obtain ⟨heq, -⟩ := Classifying.run_pure_eq.mp h
    cases heq
    rfl
  | succ rounds ih =>
    intro ctx ctx' failed m₀ m₁ settled h name
    obtain ⟨r, m₂, hround, h₁⟩ := Classifying.run_bind_eq.mp h
    split at h₁
    · obtain ⟨heq, -⟩ := Classifying.run_pure_eq.mp h₁
      cases heq
      rfl
    · rw [ih h₁, unbind_isBound, List.map_append, List.mem_append, Bool.and_eq_true]
      have hbound : name ∈ r.failed.map (·.1) → ctx.isBound name = true := by
        intro hname
        obtain ⟨e, he, rfl⟩ := List.mem_map.mp hname
        exact (structRound_spec hround).failed e he
      by_cases hname : name ∈ r.failed.map (·.1)
      · simp [hname, hbound hname]
      · simp [hname]

/-- The plan has an entry for every function it was made for. -/
theorem giveOut_positions (verdict : Candidate → Except Fault FunctionNames) :
    ∀ (functions : List Candidate) (taken : List (String × String)),
      (giveOut verdict taken functions).map (·.1) = functions.map (·.position) := by
  intro functions
  induction functions with
  | nil => intro taken; rfl
  | cons c rest ih => intro taken; rw [giveOut, List.map_cons, ih, List.map_cons]

theorem isSome_lookup_iff {α β : Type} [BEq α] [LawfulBEq α] {entries : List (α × β)} {key : α} :
    (entries.lookup key).isSome ↔ key ∈ entries.map (·.1) := by
  rw [List.lookup_isSome_iff, List.mem_map]
  simp only [beq_iff_eq, @eq_comm _ key]

theorem build_planned {plan : OverloadPlan} {position : Nat} {f : FunctionDecl}
    (h : (OverloadPlan.build ctx (candidates m i.decls)).run m₀ = (plan, m₁))
    (hf : i.decls[position]? = some (.function f)) :
    (plan.names? position).isSome ↔ isWrapped m f = true := by
  have hpositions : position ∈ plan.entries.map (·.1) ↔
      ∃ c ∈ candidates m i.decls, c.position = position := by
    rw [build_giveOut h (Memo.Grows.refl _), giveOut_positions, List.mem_map]
  rw [OverloadPlan.names?, isSome_lookup_iff, hpositions]
  constructor
  · rintro ⟨c, hc, rfl⟩
    obtain ⟨hget, hwrapped⟩ := mem_candidates_iff.mp hc
    rw [hf, Option.some.injEq, Declaration.function.injEq] at hget
    rwa [hget]
  · exact fun hwrapped => ⟨⟨position, f⟩, mem_candidates_iff.mpr ⟨hf, hwrapped⟩, rfl⟩

end

/-! ## A whole run -/

/-- What a module was written in: the structs that failed are no longer bound. -/
def moduleContext (i : Interface) (m : Manifest) : Context := (Classifying.fresh (bindAll i m)).1

/-- The names of a module's functions. -/
def modulePlan (i : Interface) (m : Manifest) : OverloadPlan := Classifying.fresh do
  let (ctx, _) ← settle (← Context.build i m)
  OverloadPlan.build ctx (candidates m i.decls)

/-- What the classifier said about the structs. -/
def structMemo (i : Interface) (m : Manifest) : Memo := ((Context.build i m).run {}).2

/-- An account of a module: these are the declarations that became something, at their positions, and
together they make up the module's bindings. -/
structure IsAccount (i : Interface) (m : Manifest) (account : List (Nat × ModuleEntry)) : Prop where
  accounts : (moduleBindings i m).2.Accounts (account.map (·.2))
  of : ∀ e ∈ account, ∃ d, i.decls[e.1]? = some d ∧
    e.2.Of (moduleContext i m) (modulePlan i m) e.1 d

/-- A struct and an enum of one name, of which neither takes the name from the other: the enum is left
out, or it comes first and the struct has no glue anyway. -/
def TagsApart (m : Manifest) (memo : Memo) (decls : List Declaration) : Prop :=
  ∀ (k l : Nat) (s : StructDecl) (e : EnumDecl), decls[k]? = some (.struct s) →
    decls[l]? = some (.enum e) → s.name = e.name → m.isExcluded e.name = false →
    l < k ∧ (Declaration.struct s).isDue m memo = false

section

variable {i : Interface} {m : Manifest} {overloads : Bool}

theorem prepared_of_runs (hidentities : (i.decls.map (Declaration.identity overloads)).Nodup)
    {initial ctx : Context} {settled : Settled} {plan : OverloadPlan} {m₁ m₂ m₃ : Memo}
    (hbuild : (Context.build i m).run {} = (initial, m₁))
    (hsettle : (settle initial).run m₁ = ((ctx, settled), m₂))
    (hplan : (OverloadPlan.build ctx (candidates m i.decls)).run m₂ = (plan, m₃)) :
    Prepared i m (structMemo i m) ctx settled plan := by
  obtain ⟨hinterface, hmanifest, -⟩ := contextBuild_spec hbuild
  obtain ⟨narrows, hsettled⟩ := settle_settled hsettle
  have hinterface' : ctx.interface = i := by rw [← hinterface, ← narrows.same]
  have hmemo : structMemo i m = m₁ := congrArg Prod.snd hbuild
  obtain ⟨bound, m₁', hbound, hreturn⟩ := Classifying.run_bind_eq.mp hbuild
  obtain ⟨rfl, rfl⟩ := Classifying.run_pure_eq.mp hreturn
  refine ⟨?_, ?_, ?_, fun position f hf => build_planned hplan hf⟩
  · rw [← hmanifest, ← narrows.same]
  · intro s hs binding glue hlookup
    obtain ⟨s', hs', hname, -, t, t', hglue, -⟩ := hsettled.written _ (lookup_mem hlookup)
    rw [hinterface'] at hs'
    rw [struct_unique hidentities hs hs' hname.symm]
    exact ⟨t, t', hglue⟩
  · intro s hs
    have hwritten : (settled.written.lookup s.name).isSome ↔ ctx.isBound s.name = true := by
      constructor
      · intro hsome
        obtain ⟨entry, hentry⟩ := Option.isSome_iff_exists.mp hsome
        obtain ⟨s', -, hname, hb, -⟩ := hsettled.written _ (lookup_mem hentry)
        rwa [hname] at hb
      · intro hb
        obtain ⟨entry, hentry⟩ := lookup_isSome (hsettled.all s (by rwa [hinterface']) hb)
        rw [hentry]
        rfl
    rw [hwritten, isSome_lookup_iff, settleWithin_names hsettle, hmemo]
    simp only [List.map_nil, List.not_mem_nil, false_or]
    rw [Context.isBound, List.contains_iff_mem, findBound_iff hbound (Memo.Grows.refl _)]
    constructor
    · exact fun hdue => ⟨s, hs, rfl, hdue⟩
    · rintro ⟨s', -, hname, hdue⟩
      simp only [Declaration.isDue, hname] at hdue ⊢
      exact hdue

/-- The steps of a run, which the parts of a module are left by. -/
theorem module_runs (i : Interface) (m : Manifest) :
    ∃ initial settled p m₁ m₂ m₃ m₄ m₅, (Context.build i m).run {} = (initial, m₁) ∧
      (settle initial).run m₁ = ((moduleContext i m, settled), m₂) ∧
      (OverloadPlan.build (moduleContext i m) (candidates m i.decls)).run m₂ = (modulePlan i m, m₃) ∧
      (Progress.addDecls (moduleContext i m) settled (modulePlan i m) {} 0 i.decls).run m₄ = (p, m₅) ∧
      (moduleBindings i m).2 = p.bindings := by
  rcases hrun : (bindAll i m).run {} with ⟨⟨ctx, slots, b⟩, m'⟩
  have hfresh : Classifying.fresh (bindAll i m) = (ctx, slots, b) := congrArg Prod.fst hrun
  obtain ⟨initial, m₁, hbuild, h₁⟩ := Classifying.run_bind_eq.mp hrun
  obtain ⟨⟨ctx', settled⟩, m₂, hsettle, h₂⟩ := Classifying.run_bind_eq.mp h₁
  obtain ⟨plan, m₃, hplan, h₃⟩ := Classifying.run_bind_eq.mp h₂
  obtain ⟨slots', m₄, -, h₄⟩ := Classifying.run_bind_eq.mp h₃
  obtain ⟨p, m₅, hdecls, hreturn⟩ := Classifying.run_bind_eq.mp h₄
  obtain ⟨heq, -⟩ := Classifying.run_pure_eq.mp hreturn
  cases heq
  have hmodulePlan : modulePlan i m = plan :=
    congrArg Prod.fst (Classifying.run_bind_eq.mpr
      ⟨_, _, hbuild, Classifying.run_bind_eq.mpr ⟨_, _, hsettle, hplan⟩⟩)
  rw [moduleContext, moduleBindings, hfresh, hmodulePlan]
  exact ⟨initial, settled, p, m₁, m₂, m₃, m₄, m₅, hbuild, hsettle, hplan, hdecls, rfl⟩

/-- A module is written in a context for its interface and its manifest. -/
theorem moduleContext_eq (i : Interface) (m : Manifest) :
    (moduleContext i m).manifest = m ∧ (moduleContext i m).naming = m.naming.fillFrom i := by
  obtain ⟨initial, settled, -, m₁, m₂, -, -, -, hbuild, hsettle, -⟩ := module_runs i m
  obtain ⟨narrows, -⟩ := settle_settled hsettle
  obtain ⟨bound, m₀, -, hreturn⟩ := Classifying.run_bind_eq.mp hbuild
  obtain ⟨rfl, -⟩ := Classifying.run_pure_eq.mp hreturn
  exact ⟨congrArg Context.manifest narrows.same, congrArg Context.naming narrows.same⟩

/-- An account in which the problems of enums and constants say why these could not be written. -/
theorem reporting_account_exists (hidentities : (i.decls.map (Declaration.identity overloads)).Nodup) :
    ∃ account, IsAccount i m account ∧ account.map (·.1) =
      enteredPositions m (structMemo i m) i.decls i.decls.length ∧
      ∀ e ∈ account, ∃ d, i.decls[e.1]? = some d ∧ e.2.Reports (moduleContext i m) e.1 d := by
  obtain ⟨_, _, p, _, _, _, _, _, hbuild, hsettle, hplan, hdecls, hbindings⟩ := module_runs i m
  have hstart : Accounted m (structMemo i m) (moduleContext i m) (modulePlan i m) i.decls 0 {} [] :=
    .start
  obtain ⟨account, haccount⟩ := hstart.run (prepared_of_runs hidentities hbuild hsettle hplan)
    (fun k => by rw [Nat.zero_add]) hdecls
  rw [Nat.zero_add] at haccount
  refine ⟨account, ⟨hbindings ▸ haccount.accounts, fun e he => ?_⟩, haccount.positions, fun e he => ?_⟩
  · obtain ⟨d, hd, hof, -⟩ := haccount.of e he
    exact ⟨d, hd, hof⟩
  · obtain ⟨d, hd, -, hreports⟩ := haccount.of e he
    exact ⟨d, hd, hreports⟩

/-- **Every module has an account**, of the declarations that are entered. -/
theorem account_exists (hidentities : (i.decls.map (Declaration.identity overloads)).Nodup) :
    ∃ account, IsAccount i m account ∧ account.map (·.1) =
      enteredPositions m (structMemo i m) i.decls i.decls.length := by
  obtain ⟨account, haccount, hpositions, -⟩ := reporting_account_exists hidentities
  exact ⟨account, haccount, hpositions⟩

theorem isClaimed_take {decls : List Declaration} {k : Nat} {name : String} :
    isClaimed m (decls.take k) name = true ↔
      ∃ l < k, ∃ d, decls[l]? = some d ∧ d.claims? m = some name := by
  unfold isClaimed
  rw [List.any_eq_true]
  constructor
  · rintro ⟨d, hd, hclaims⟩
    obtain ⟨l, hl⟩ := List.getElem?_of_mem hd
    rw [List.getElem?_take] at hl
    split at hl
    · rename_i hlt
      exact ⟨l, hlt, d, hl, eq_of_beq hclaims⟩
    · cases hl
  · rintro ⟨l, hlt, d, hl, hclaims⟩
    refine ⟨d, List.mem_of_getElem? (i := l) ?_, by simp [hclaims]⟩
    rw [List.getElem?_take, if_pos hlt, hl]

theorem entered_eq_filter {memo : Memo} {decls : List Declaration} :
    enteredPositions m memo decls decls.length =
      (duePositions m memo decls).filter fun k =>
        decls[k]?.any fun d => !(d.claims? m).any (isClaimed m (decls.take k)) := by
  rw [enteredPositions, duePositions, List.filter_filter]
  refine List.filter_congr fun k _ => ?_
  cases decls[k]? <;> simp [Declaration.isEntered, Bool.and_comm]

/-- What is to have glue is entered, unless its name is claimed before it. -/
theorem entered_eq_due_iff {memo : Memo} {decls : List Declaration} :
    enteredPositions m memo decls decls.length = duePositions m memo decls ↔
      ∀ (k l : Nat) (d d' : Declaration) (name : String), decls[k]? = some d →
        d.isDue m memo = true → d.claims? m = some name → decls[l]? = some d' →
        d'.claims? m = some name → k ≤ l := by
  rw [entered_eq_filter, List.filter_eq_self]
  constructor
  · intro h k l d d' name hk hdue hclaims hl hclaims'
    have hlt : k < decls.length := (List.getElem?_eq_some_iff.mp hk).1
    have hfree := h k (List.mem_filter.mpr ⟨List.mem_range.mpr hlt, by simp [hk, hdue]⟩)
    rw [hk, Option.any_some, hclaims, Option.any_some, Bool.not_eq_true'] at hfree
    by_contra hnot
    have hclaimed : isClaimed m (decls.take k) name = true :=
      isClaimed_take.mpr ⟨l, by omega, d', hl, hclaims'⟩
    rw [hfree] at hclaimed
    cases hclaimed
  · intro h k hk
    obtain ⟨d, hd, hdue⟩ := (Option.any_eq_true _ _).mp (List.mem_filter.mp hk).2
    rw [hd, Option.any_some, Bool.not_eq_true', ← Bool.not_eq_true]
    intro hclaimed
    obtain ⟨name, hclaims, hclaimed⟩ := (Option.any_eq_true _ _).mp hclaimed
    obtain ⟨l, hl, d', hd', hclaims'⟩ := isClaimed_take.mp hclaimed
    have hle := h k l d d' name hd hdue hclaims hd' hclaims'
    omega

/-- Since structs have different names, and enums have, a name can only be claimed by one of each. -/
theorem tagsApart_iff {memo : Memo} {decls : List Declaration}
    (hidentities : (decls.map (Declaration.identity overloads)).Nodup) :
    TagsApart m memo decls ↔
      ∀ (k l : Nat) (d d' : Declaration) (name : String), decls[k]? = some d →
        d.isDue m memo = true → d.claims? m = some name → decls[l]? = some d' →
        d'.claims? m = some name → k ≤ l := by
  have claimed {e : EnumDecl} {name : String} (h : (Declaration.enum e).claims? m = some name) :
      m.isExcluded e.name = false ∧ e.name = name := by
    simpa [Declaration.claims?] using h
  constructor
  · intro h k l d d' name hk hdue hclaims hl hclaims'
    cases d with
    | function f => cases hclaims
    | consts g => cases hclaims
    | struct s =>
      cases hclaims
      cases d' with
      | function f => cases hclaims'
      | consts g => cases hclaims'
      | struct s' =>
        refine Nat.le_of_eq (position_unique hidentities hk hl ?_)
        rw [Declaration.identity, Declaration.identity, Option.some.inj hclaims']
      | enum e =>
        obtain ⟨hexcluded, hname⟩ := claimed hclaims'
        have hundue := (h k l s e hk hl hname.symm hexcluded).2
        rw [hdue] at hundue
        cases hundue
    | enum e =>
      obtain ⟨hexcluded, rfl⟩ := claimed hclaims
      cases d' with
      | function f => cases hclaims'
      | consts g => cases hclaims'
      | struct s => exact Nat.le_of_lt (h l k s e hl hk (Option.some.inj hclaims') hexcluded).1
      | enum e' =>
        refine Nat.le_of_eq (position_unique hidentities hk hl ?_)
        rw [Declaration.identity, Declaration.identity, (claimed hclaims').2]
  · intro h k l s e hk hl hname hexcluded
    have hclaims : (Declaration.enum e).claims? m = some s.name := by
      simp [Declaration.claims?, hexcluded, hname]
    have hle : l ≤ k := h l k _ _ s.name hl (by simp [Declaration.isDue, hexcluded]) hclaims hk rfl
    have hne : l ≠ k := by
      rintro rfl
      rw [hk] at hl
      cases hl
    refine ⟨by omega, Bool.eq_false_iff.mpr fun hdue => ?_⟩
    have hle' := h k l _ _ s.name hk hdue rfl hl hclaims
    omega

/-- A module has as many chunks as its account has entries, so no two accounts differ in length. -/
theorem IsAccount.length_eq {account account' : List (Nat × ModuleEntry)} (h : IsAccount i m account)
    (h' : IsAccount i m account') : account.length = account'.length := by
  have hchunks := congrArg List.length (h.accounts.chunks.symm.trans h'.accounts.chunks)
  simpa using hchunks

theorem complete_account_iff (hidentities : (i.decls.map (Declaration.identity overloads)).Nodup) :
    (∃ account, IsAccount i m account ∧
        account.map (·.1) = duePositions m (structMemo i m) i.decls) ↔
      TagsApart m (structMemo i m) i.decls := by
  obtain ⟨account, haccount, hentered⟩ := account_exists hidentities
  rw [tagsApart_iff hidentities, ← entered_eq_due_iff]
  constructor
  · rintro ⟨account', haccount', hdue⟩
    refine (entered_eq_filter ▸ List.filter_sublist).eq_of_length ?_
    rw [← hentered, ← hdue, List.length_map, List.length_map, haccount.length_eq haccount']
  · exact fun hsame => ⟨account, haccount, hentered.trans hsame⟩

end

/-- A run's answer is made from the bindings of the module. -/
theorem generated_eq (i : Interface) (m : Manifest) :
    (generate i m).problems = (moduleBindings i m).2.problems ∧
      (generate i m).code =
        (cFile (moduleContext i m) (moduleBindings i m).1 (moduleBindings i m).2).text := by
  unfold generate moduleContext moduleBindings
  rcases Classifying.fresh (bindAll i m) with ⟨ctx, slots, b⟩
  exact ⟨rfl, rfl⟩

/-- **When every declaration is accounted for**: each one that is to have glue, at its place and once,
by a chunk and a binding or by a comment and a problem. -/
theorem declarations_accounted_iff {overloads : Bool} {text : String} {m : Manifest}
    {loaded i : Interface} (hparse : Interface.parse overloads text = .ok loaded)
    (hattach : m.attachOwnedBuffers loaded = .ok i) :
    (generate i m).problems = (moduleBindings i m).2.problems ∧
      (generate i m).code =
        (cFile (moduleContext i m) (moduleBindings i m).1 (moduleBindings i m).2).text ∧
      ((∃ account, IsAccount i m account ∧
          account.map (·.1) = duePositions m (structMemo i m) i.decls) ↔
        TagsApart m (structMemo i m) i.decls) :=
  ⟨(generated_eq i m).1, (generated_eq i m).2,
    complete_account_iff (attached_identities hparse hattach)⟩

/-- A struct, a function that is variadic, one that is not, an enum, and two constants, of which one is
too large. -/
def medleyText : String :=
  "[[\"struct\",\"P\",null,[],[[\"x\",\"int\"]]],[\"func\",\"log\",\"int (...)\"],
    [\"func\",\"f\",\"int ()\"],[\"enum\",\"E\",null,[],[],[[\"A\"]]],
    [\"consts\",null,null,[],[],[[\"B\"]]],
    [\"consts\",null,null,[],[],[[\"C\",\"18446744073709551616\"]]]]"

def medley : Interface where
  decls := [.struct ⟨"P", [⟨"x", "int"⟩], []⟩,
    .function { name := "log", type := "int (...)", returnType := "int", params := []
                variadic := true },
    .function { name := "f", type := "int ()", returnType := "int", params := []
                variadic := false },
    .enum ⟨"E", [⟨"A", 0⟩]⟩, .consts ⟨[⟨"B", 0⟩]⟩, .consts ⟨[⟨"C", 18446744073709551616⟩]⟩]

theorem medley_parsed : Interface.parse false medleyText = .ok medley := by decide +kernel

theorem declarations_accounted_medley :
    (Interface.parse false medleyText = .ok medley ∧
        ({} : Manifest).attachOwnedBuffers medley = .ok medley) ∧
      duePositions {} (structMemo medley {}) medley.decls = [0, 2, 3, 4, 5] ∧
      (generate medley {}).problems = [⟨"consts#5", .enumRange "C" 18446744073709551616⟩] ∧
      ∃ account, IsAccount medley {} account ∧
        account.map (·.1) = duePositions {} (structMemo medley {}) medley.decls := by
  have hapart : TagsApart {} (structMemo medley {}) medley.decls := by
    intro k l s e hk hl hname
    have hs : s = ⟨"P", [⟨"x", "int"⟩], []⟩ := by simpa [medley] using List.mem_of_getElem? hk
    have he : e = ⟨"E", [⟨"A", 0⟩]⟩ := by simpa [medley] using List.mem_of_getElem? hl
    subst hs he
    exact absurd hname (by decide)
  exact ⟨⟨medley_parsed, rfl⟩, by decide +kernel, by decide +kernel,
    (declarations_accounted_iff medley_parsed rfl).2.2.mpr hapart⟩

/-- A struct and an enum of one name. -/
def namesakeText : String :=
  "[[\"struct\",\"Mode\",null,[],[[\"x\",\"int\"]]],
    [\"enum\",\"Mode\",null,[],[],[[\"MODE_ON\"]]]]"

def namesakeInterface : Interface where
  decls := [.struct ⟨"Mode", [⟨"x", "int"⟩], []⟩, .enum ⟨"Mode", [⟨"MODE_ON", 0⟩]⟩]

/-- The struct is skipped, the enum is not. -/
def skippingManifest : Manifest where
  filter := { skipStructs := ["Mode"] }

/-- A struct without glue takes its name from an enum, and nothing is left of either. -/
theorem enum_lost :
    Interface.parse false namesakeText = .ok namesakeInterface ∧
      skippingManifest.attachOwnedBuffers namesakeInterface = .ok namesakeInterface ∧
      duePositions skippingManifest (structMemo namesakeInterface skippingManifest)
        namesakeInterface.decls = [1] ∧
      (moduleBindings namesakeInterface skippingManifest).2.chunks.length = 0 ∧
      (generate namesakeInterface skippingManifest).problems = [] ∧
      ¬ ∃ account, IsAccount namesakeInterface skippingManifest account ∧
        account.map (·.1) = duePositions skippingManifest
          (structMemo namesakeInterface skippingManifest) namesakeInterface.decls := by
  have hdue : duePositions skippingManifest (structMemo namesakeInterface skippingManifest)
      namesakeInterface.decls = [1] := by
    decide +kernel
  have hchunks : (moduleBindings namesakeInterface skippingManifest).2.chunks.length = 0 := by
    decide +kernel
  refine ⟨by decide +kernel, rfl, hdue, hchunks, by decide +kernel, ?_⟩
  rintro ⟨account, haccount, hpositions⟩
  rw [haccount.accounts.chunks, List.length_map, List.length_map] at hchunks
  rw [hdue, List.length_eq_zero_iff.mp hchunks] at hpositions
  cases hpositions

end LuaGlue
