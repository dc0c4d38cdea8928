import LuaGlue.Proofs.Callback.DispatcherCode
import LuaGlue.Proofs.Marshal.Peak
import LuaGlue.Proofs.Marshal.Positions

/-!
# Room on the stack for a callback

Before it pushes anything, a dispatcher asks for room for its closure, its arguments and one value more
(`dispatcherRoom`). The one more is the table of an argument that is an array or a tuple, while its
parts are pushed into it; a table inside a table needs another. So the room suffices exactly if no
argument nests more tables than there are arguments from it on (`dispatcher_room_iff`), and a single
argument that is a tuple of tuples is too much (`dispatcher_room_exceeded`).
-/

set_option autoImplicit false

namespace LuaGlue

/-- On every run, from the call that asks for room up to the protected call, no more values are put on
the stack than were asked for. -/
def Code.RoomSuffices (body : Code) : Prop :=
  ∀ r, body.Runs r → ∀ room between,
    Api.checkstack.on [.number room] :: between <+: r.calls →
    (∀ c ∈ between, c.callee ≠ .api .pcall) → heightAfter 0 between ≤ room

section

variable {ctx : Context} {m : Memo}

/-! ## The arguments -/

theorem ArgumentsPushed.pushing {i : Nat} {params : List String} {n n' : Nat} {code : Code}
    (h : ArgumentsPushed ctx m i params n code n') : code.All fun c => c.isPushing = true := by
  induction h with
  | nil => exact .done
  | cons head _ ih => exact .append head.pushing ih

/-- What the arguments come to, each on top of those before it. -/
theorem ArgumentsPushed.ceiling {i : Nat} {params : List String} {n n' : Nat} {code : Code}
    (hp : ArgumentsPushed ctx m i params n code n') :
    ∀ {h top : Int}, h ≤ top →
      (∀ (k : Nat) spelling (j : Nat), params[k]? = some spelling → TablesDeep ctx m j spelling →
        h + k + j + 1 ≤ top) →
      code.Climbs (Below top) h (h + params.length) := by
  induction hp with
  | nil =>
    intro h top _ _
    simpa using Code.Climbs.done
  | @cons i spelling rest n code n' code' n'' head _ ih =>
    intro h top _ hdeep
    have hzero : h + (0 : Nat) + (0 : Nat) + 1 ≤ top := hdeep 0 spelling 0 rfl .here
    -- the highest the first argument may come to
    have hfirst : code.Climbs (Below top) h (h + 1) := by
      have hwithin : (PushJob.value spelling (.name (callbackParam i))).Within ctx m
          (top - h - 1).toNat :=
        PushJob.within_value.mpr fun j hj => by
          have := hdeep 0 spelling j rfl hj
          omega
      have hclimbs := head.ceiling (h := h) hwithin (Nat.zero_le _)
      rw [PushJob.base, Int.add_zero] at hclimbs
      exact hclimbs.raise (by omega)
    have hrest := @ih (h + 1) top (by omega) fun k spelling j hk hj => by
      have := hdeep (k + 1) spelling j (by simpa using hk) hj
      omega
    rw [List.length_cons, show h + ((rest.length + 1 : Nat) : Int) = h + 1 + rest.length by omega]
    exact hfirst.append hrest

theorem ArgumentsPushed.reaches {i : Nat} {params : List String} {n n' : Nat} {code : Code}
    (hp : ArgumentsPushed ctx m i params n code n') :
    ∀ {h : Int} {k : Nat} {spelling : String} {j : Nat}, 0 ≤ h → params[k]? = some spelling →
      TablesDeep ctx m j spelling → code.Reaches h (h + k + j + 1) := by
  induction hp with
  | nil =>
    intro h k spelling j _ hk _
    simp at hk
  | cons head _ ih =>
    intro h k spelling j h₀ hk hj
    cases k with
    | zero =>
      obtain rfl := Option.some.inj hk
      have := (head.reaches h₀ rfl hj).first
      simpa [PushJob.base, PushJob.tables] using this _
    | succ k =>
      have hhead := head.climbs h₀
      rw [PushJob.base, Int.add_zero] at hhead
      have hrest := ih (h := h + 1) (by omega) (by simpa using hk) hj
      rw [show h + 1 + (k : Int) + j + 1 = h + ((k + 1 : Nat) : Int) + j + 1 by omega] at hrest
      exact .second hhead hrest

/-! ## The runs of a dispatcher -/

/-- An answer of zero makes no call and leaves the function. -/
theorem ReturnsZero.runs {code : Code} (h : ReturnsZero code) {r : Run} (hr : code.Runs r) :
    r = ⟨[], true⟩ := by
  have leave : ∀ {l : Line} {r : Run}, l.runs = [⟨[], true⟩] → (Code.line l .done).Runs r →
      r = ⟨[], true⟩ := by
    intro l r hl hr
    cases hr with
    | line hm _ =>
      rw [hl, List.mem_singleton] at hm
      subst hm
      rfl
  cases h with
  | void => exact leave rfl hr
  | literal => exact leave rfl hr
  | stored =>
    cases hr with
    | line hm hnext =>
      obtain rfl := List.mem_singleton.mp hm
      rw [leave rfl hnext]
      rfl

/-- The protected call comes first once the arguments are pushed. -/
theorem DispatcherPieces.calling_runs {p : DispatcherPieces} {site result : String}
    {category : Category} {nargs : Nat} {r : Run}
    (hr : (p.calling ctx site result category nargs).Runs r) :
    ∃ c rest, r.calls = c :: rest ∧ c.callee = .api .pcall := by
  obtain ⟨r₁, r₂, hgap, hbranch, rfl⟩ := Code.runs_append hr
  have hnone : r₁ = .through [] := by
    unfold resultGap at hgap
    split at hgap
    · cases hgap with
      | line hm hnext =>
        obtain rfl := List.mem_singleton.mp hm
        cases hnext
        rfl
    · cases hgap
      rfl
  subst hnone
  cases hbranch <;> exact ⟨_, _, rfl, rfl⟩

/-- A run that calls nothing of a kind stays before the first call of that kind. -/
theorem prefix_of_not_mem {α : Type} {before between after : List α} {c : α}
    (hp : between <+: before ++ c :: after) (hc : c ∉ between) : between <+: before := by
  rcases List.prefix_or_prefix_of_prefix hp (List.prefix_append before (c :: after)) with h | h
  · exact h
  · obtain ⟨rest, rfl⟩ := h
    rw [List.prefix_append_right_inj] at hp
    cases rest with
    | nil => simp
    | cons d rest =>
      obtain ⟨rfl, -⟩ := List.cons_prefix_cons.mp hp
      simp at hc

/-- The call that asks for room. -/
def roomCall (nargs : Nat) : Call := Api.checkstack.on [.number (dispatcherRoom nargs)]

/-- The call that fetches the closure. -/
def fetchCall : Call := Api.rawgeti.on [.text "LUA_REGISTRYINDEX", .value (.through "s" "ref")]

/-- A run of a dispatcher answers at once, or asks for room in vain, or goes on with the closure and the
arguments. -/
theorem Dispatches.runs_cases {p : DispatcherPieces} {site result : String} {category : Category}
    {params : List String} (hd : Dispatches ctx m result category params p) {r : Run}
    (hr : (p.body ctx site result category params.length).Runs r) :
    r.calls = [] ∨
    (∃ report, report.effect = 0 ∧ r.calls = [roomCall params.length, report]) ∨
    ∃ r₁ r₂, p.arguments.Runs r₁ ∧ (p.calling ctx site result category params.length).Runs r₂ ∧
      r.calls = roomCall params.length :: fetchCall :: (r₁.andThen r₂).calls := by
  cases hr with
  | yes hunused _ =>
    rw [hd.unused.runs hunused]
    exact .inl rfl
  | no hdone hstate =>
    cases hdone
    cases hstate with
    | line hm hroom =>
      obtain rfl := List.mem_singleton.mp hm
      cases hroom with
      | yes hreport _ =>
        cases hreport with
        | line hm hoverflow =>
          obtain rfl := List.mem_singleton.mp hm
          rw [hd.overflow.runs hoverflow]
          exact .inr (.inl ⟨_, rfl, rfl⟩)
      | no hdone hfetch =>
        cases hdone
        cases hfetch with
        | line hm hrest =>
          obtain rfl := List.mem_singleton.mp hm
          obtain ⟨r₁, r₂, hargs, hcalling, rfl⟩ := Code.runs_append hrest
          exact .inr (.inr ⟨r₁, r₂, hargs, hcalling, rfl⟩)

/-- Every run of the arguments is part of a run of the dispatcher. -/
theorem DispatcherPieces.exists_runs {p : DispatcherPieces} {site result : String}
    {category : Category} {nargs : Nat} {r₁ : Run} (hr : p.arguments.Runs r₁) :
    ∃ r, (p.body ctx site result category nargs).Runs r ∧
      roomCall nargs :: fetchCall :: r₁.calls <+: r.calls := by
  obtain ⟨r₂, hcalling⟩ := (p.calling ctx site result category nargs).exists_runs
  refine ⟨_, .no .done (.line (List.mem_singleton.mpr rfl)
    (.no .done (.line (List.mem_singleton.mpr rfl) (hr.append hcalling)))), ?_⟩
  have hprefix := r₁.prefix_andThen r₂
  change roomCall nargs :: fetchCall :: r₁.calls <+:
    roomCall nargs :: fetchCall :: (r₁.andThen r₂).calls
  exact List.cons_prefix_cons.mpr ⟨rfl, List.cons_prefix_cons.mpr ⟨rfl, hprefix⟩⟩

/-! ## The room -/

/-- **The room a dispatcher asks for suffices if and only if no argument nests more tables than there are
arguments from it on.** -/
theorem Dispatches.room_iff {p : DispatcherPieces} {site result : String} {category : Category}
    {params : List String} (hd : Dispatches ctx m result category params p) :
    (p.body ctx site result category params.length).RoomSuffices ↔
      ∀ (i : Nat) spelling (j : Nat), params[i]? = some spelling → TablesDeep ctx m j spelling →
        i + j ≤ params.length := by
  obtain ⟨n, n', hpushed⟩ := hd.arguments
  constructor
  · intro hroom i spelling j hi hj
    obtain ⟨r₁, calls, hr₁, hp, htop⟩ := hpushed.reaches (h := 1) (by omega) hi hj
    obtain ⟨r, hr, hprefix⟩ : ∃ r, (p.body ctx site result category params.length).Runs r ∧
        roomCall params.length :: fetchCall :: r₁.calls <+: r.calls :=
      DispatcherPieces.exists_runs hr₁
    have hbetween : roomCall params.length :: fetchCall :: calls <+: r.calls :=
      (List.cons_prefix_cons.mpr ⟨rfl, List.cons_prefix_cons.mpr ⟨rfl, hp⟩⟩).trans hprefix
    have hquiet : ∀ c ∈ fetchCall :: calls, c.callee ≠ .api .pcall := by
      intro c hc
      rcases List.mem_cons.mp hc with rfl | hc
      · simp [fetchCall, Api.on]
      · exact Call.not_pcall_of_isPushing (hpushed.pushing c (hr₁.mem_calls (hp.subset hc)))
    have hheight := hroom r hr _ _ hbetween hquiet
    rw [heightAfter_cons, show (0 : Int) + fetchCall.effect = 1 from rfl, htop, dispatcherRoom] at hheight
    omega
  · intro hdeep r hr room between hp hquiet
    rcases hd.runs_cases hr with hnone | ⟨report, heffect, hcalls⟩ | ⟨r₁, r₂, hr₁, hr₂, hcalls⟩
    · rw [hnone] at hp
      exact absurd (List.prefix_nil.mp hp) (List.cons_ne_nil _ _)
    · -- there is no room, and nothing is put on the stack
      rw [hcalls] at hp
      obtain ⟨-, hbetween⟩ := List.cons_prefix_cons.mp hp
      cases between with
      | nil => simp
      | cons c rest =>
        obtain ⟨rfl, hrest⟩ := List.cons_prefix_cons.mp hbetween
        rw [List.prefix_nil.mp hrest, heightAfter_cons, heightAfter_nil, heffect]
        omega
    · rw [hcalls] at hp
      obtain ⟨hcheck, hbetween⟩ := List.cons_prefix_cons.mp hp
      obtain rfl : room = dispatcherRoom params.length := by
        simpa [roomCall, Api.on] using hcheck
      have hclimbs : r₁.Climbs (Below (dispatcherRoom params.length)) 1 (1 + params.length) :=
        hpushed.ceiling (by simp only [dispatcherRoom]; omega)
          (fun k spelling j hk hj => by
            have := hdeep k spelling j hk hj
            simp only [dispatcherRoom]
            omega) r₁ hr₁
      obtain ⟨call, after, hafter, hpcall⟩ := DispatcherPieces.calling_runs hr₂
      rw [Run.andThen_of_through hclimbs.through, hafter] at hbetween
      have hbefore : between <+: fetchCall :: r₁.calls :=
        prefix_of_not_mem hbetween fun hmem => hquiet call hmem hpcall
      cases between with
      | nil => simp
      | cons c rest =>
        obtain ⟨rfl, hrest⟩ := List.cons_prefix_cons.mp hbefore
        rw [heightAfter_cons, show (0 : Int) + fetchCall.effect = 1 from rfl]
        exact hclimbs.below (by simp only [dispatcherRoom]; omega) hrest

/-- The body of a dispatcher begins by asking for room, unless it answers at once. -/
theorem Dispatches.asks {p : DispatcherPieces} {site result : String} {category : Category}
    {params : List String} (hd : Dispatches ctx m result category params p) {r : Run}
    (hr : (p.body ctx site result category params.length).Runs r) :
    r.calls = [] ∨ ∃ rest, r.calls = roomCall params.length :: rest := by
  rcases hd.runs_cases hr with hnone | ⟨report, -, hcalls⟩ | ⟨_, _, -, -, hcalls⟩
  · exact .inl hnone
  · exact .inr ⟨_, hcalls⟩
  · exact .inr ⟨_, hcalls⟩

end

/-- **The room that the dispatcher of a callback field asks for suffices if and only if no argument nests
more tables than there are arguments from it on.** Every run of the dispatcher asks for it before it
makes any other call, or makes none. -/
theorem dispatcher_room_iff {ctx : Context} {owner : String} {field : Field} {s s' : Scratch}
    {code : Code} (h : trampolines ctx owner field s = (.written () code, s')) :
    ∃ f params body rest, signature ctx owner field = .ok f ∧
      code = .block (.define ("static " ++ Text.trimmed f.result) (.dispatcher owner field.name) params)
        body .brace rest ∧
      (∀ r, body.Runs r → r.calls = [] ∨
        ∃ later, r.calls = Api.checkstack.on [.number (f.params.length + 2)] :: later) ∧
      (body.RoomSuffices ↔ ∀ (i : Nat) spelling (j : Nat), f.params[i]? = some spelling →
        TablesDeep ctx s'.memo j spelling → i + j ≤ f.params.length) := by
  obtain ⟨f, category, declared, params, p, hf, -, hd, rfl⟩ := trampolines_written h
  exact ⟨f, declared, _, _, hf, rfl, fun r hr => hd.asks hr, hd.room_iff⟩

/-- A tuple of two tuples of two numbers. -/
def quadContext : Context :=
  Classifying.fresh
    (Context.build {}
      { types := { tuples := [("Vec2", ["x:float", "y:float"]), ("Quad", ["min:Vec2", "max:Vec2"])] } })

theorem dispatcher_room_iff_count : ∃ code s' result params body rest,
    trampolines quadContext "Widget" ⟨"on_count", "void (*)(int)"⟩ {} = (.written () code, s') ∧
      code = .block (.define result (.dispatcher "Widget" "on_count") params) body .brace rest ∧
      body.RoomSuffices := by
  obtain ⟨_, code, s', h, -⟩ := Draft.exists_written
    (trampolines quadContext "Widget" ⟨"on_count", "void (*)(int)"⟩) {} (fun _ => true)
    (by decide +kernel)
  obtain ⟨f, params, body, rest, hf, hcode, -, hroom⟩ := dispatcher_room_iff h
  refine ⟨code, s', _, params, body, rest, h, hcode, hroom.mpr fun i spelling j hi hj => ?_⟩
  have hparams : ((signature quadContext "Widget" ⟨"on_count", "void (*)(int)"⟩).toOption.map
      (·.params)) = some ["int"] := by decide +kernel
  have hint : ((trampolines quadContext "Widget" ⟨"on_count", "void (*)(int)"⟩ {}).2.memo.find?
      "int").any Category.isInteger = true := by decide +kernel
  rw [hf] at hparams
  rw [h] at hint
  have hfirst : f.params = ["int"] := by simpa [Except.toOption] using hparams
  obtain ⟨c, hc, hinteger⟩ := (Option.any_eq_true _ _).mp hint
  rw [hfirst] at hi ⊢
  obtain ⟨rfl, rfl⟩ : i = 0 ∧ spelling = "int" := by
    cases i <;> simp_all
  have hflat : j = 0 := by
    refine (TablesDeep.leaf_iff hc ?_ ?_).mp hj <;> cases c <;> first | rfl | cases hinteger
  rw [hflat]
  exact Nat.zero_le 1

/-- A tuple of tuples is one value more than there is room for. -/
theorem dispatcher_room_exceeded : ∃ code s' params body rest result,
    trampolines quadContext "Widget" ⟨"on_area", "void (*)(Quad)"⟩ {} = (.written () code, s') ∧
      code = .block (.define result (.dispatcher "Widget" "on_area") params) body .brace rest ∧
      ¬ body.RoomSuffices := by
  obtain ⟨_, code, s', h, -⟩ := Draft.exists_written
    (trampolines quadContext "Widget" ⟨"on_area", "void (*)(Quad)"⟩) {} (fun _ => true)
    (by decide +kernel)
  obtain ⟨f, category, declared, params, p, hf, -, hd, rfl⟩ := trampolines_written h
  refine ⟨_, s', declared, _, _, _, h, rfl, fun hroom => ?_⟩
  have hparams : ((signature quadContext "Widget" ⟨"on_area", "void (*)(Quad)"⟩).toOption.map
      (·.params)) = some ["Quad"] := by decide +kernel
  rw [hf] at hparams
  have hfirst : f.params = ["Quad"] := by simpa [Except.toOption] using hparams
  have known (name : String) : s'.memo.find? name =
      (trampolines quadContext "Widget" ⟨"on_area", "void (*)(Quad)"⟩ {}).2.memo.find? name := by
    rw [h]
  have hdeep : TablesDeep quadContext s'.memo 2 "Quad" := by
    refine .of_member "Quad" "Vec2" ?_ (by decide +kernel) ?_
    · rw [known]
      decide +kernel
    · refine .of_member "Vec2" "float" ?_ (by decide +kernel) .here
      rw [known]
      decide +kernel
  have := hd.room_iff.mp hroom 0 "Quad" 2 (by rw [hfirst]; rfl) hdeep
  rw [hfirst] at this
  exact absurd this (by decide)

end LuaGlue
