import LuaGlue.Generate
import LuaGlue.Proofs.Callback.DispatcherCode
import LuaGlue.Proofs.Userdata.Accessors
import LuaGlue.Proofs.Userdata.References
import LuaGlue.Proofs.Userdata.Setters

/-!
# Structs that are settled

A round takes the bound structs one after another (`Round`); it writes each or reports it as failed
(`Round.rounded`), and what fails is unbound before the next round. Since a round without success unbinds a
struct, the last round has no failures: afterwards exactly the bound structs are written, each by the glue of
the final context, and nothing that failed is bound any longer (`settle_settled`).
-/

set_option autoImplicit false

namespace LuaGlue

open Draft

/-! ## A struct's glue takes nothing back -/

/-- What the first of two steps knows is known after the second. -/
theorem Draft.Grows.after {α β : Type} {m : Draft α} {f : α → Draft β} (hf : ∀ a, (f a).Grows)
    (s : Scratch) : (m s).2.memo.Grows ((m >>= f) s).2.memo := by
  change (m s).2.memo.Grows (Draft.bind m f s).2.memo
  unfold Draft.bind
  rcases m s with ⟨a | _, s'⟩
  · exact hf a s'
  · exact Memo.Grows.refl _

theorem callbackCode_grows (ctx : Context) (s : StructDecl) (as : List Accessor) :
    (callbackCode ctx s as).Grows := by
  induction as with
  | nil => exact .pure ()
  | cons a rest ih =>
    unfold callbackCode
    split
    · split
      · exact (trampolines_grows ctx _ _).bind fun _ => ih
      · exact (Grows.fail _).bind fun _ => ih
    · exact ih

/-- What is known once the accessors are listed is known at the end. -/
theorem bindStruct_grows_listed (ctx : Context) (s : StructDecl) (t : Scratch) :
    ((accessors ctx s).run t.memo).2.Grows (bindStruct ctx s t).2.memo := by
  refine Grows.after (m := asking (accessors ctx s)) (fun answer => ?_) t
  exact (Grows.ofExcept answer).bind fun as => (callbackCode_grows ctx s as).bind fun _ =>
    (fieldCode_grows ctx s.name as).bind fun _ =>
      (Grows.asking (byteRangeOf?_lasts ctx s.name).grows).bind fun _ => (Grows.write _).bind fun _ =>
        (Grows.asking (.mapM (fun a => (Accessor.binding_lasts ctx a).grows) as)).bind fun _ => .pure _

theorem bindStruct_grows (ctx : Context) (s : StructDecl) : (bindStruct ctx s).Grows :=
  fun t => ((accessors_lasts ctx s).grows t.memo).trans (bindStruct_grows_listed ctx s t)

/-! ## Chunks -/

section

variable {α : Type} {d : Draft α} {m m' : Memo} {a : α} {code : Code}

theorem chunk_ok : (chunk d).run m = (.ok (a, code), m') ↔
    ∃ s', d ⟨m, 0⟩ = (.written a code, s') ∧ s'.memo = m' := by
  change (((d ⟨m, 0⟩).1.toExcept, (d ⟨m, 0⟩).2.memo) : Except Fault (α × Code) × Memo) = _ ↔ _
  rcases d ⟨m, 0⟩ with ⟨b | _, s'⟩
  · simp only [Outcome.toExcept, Prod.mk.injEq, Except.ok.injEq, Outcome.written.injEq]
    constructor
    · rintro ⟨hwritten, rfl⟩
      exact ⟨s', ⟨hwritten, rfl⟩, rfl⟩
    · rintro ⟨_, ⟨hwritten, rfl⟩, rfl⟩
      exact ⟨hwritten, rfl⟩
  · simp [Outcome.toExcept]

theorem chunk_error {fault : Fault} (h : (chunk d).run m = (.error fault, m')) :
    (d ⟨m, 0⟩).1.fault? = some fault := by
  change (((d ⟨m, 0⟩).1.toExcept, (d ⟨m, 0⟩).2.memo) : Except Fault (α × Code) × Memo) = _ at h
  rcases hd : d ⟨m, 0⟩ with ⟨_ | fault', s'⟩ <;> rw [hd] at h <;> cases h
  rfl

theorem chunk_grows (hd : d.Grows) : (chunk d).Grows := fun m => hd ⟨m, 0⟩

end

/-! ## Rounds -/

/-- The glue of a struct, as it was written at some time before the memo `m`. -/
def StructWritten (ctx : Context) (m : Memo) (s : StructDecl) (binding : StructBinding)
    (code : Code) : Prop :=
  ∃ t t', bindStruct ctx s t = (.written binding code, t') ∧ t'.memo.Grows m

/-- What is known of a struct that is written, beside the outline of its code: the accessors it was
given, and what they are called. -/
structure StructMade (ctx : Context) (m : Memo) (binding : StructBinding) (fields : List Accessor) :
    Prop where
  bound : ctx.isBound binding.native = true
  listed : ∃ s ∈ ctx.interface.structs, s.name = binding.native ∧
    ∃ m₀ m₁, (accessors ctx s).run m₀ = (.ok fields, m₁) ∧ m₁.Grows m
  collector : binding.hasCollector = fields.any (·.isOwnedBuffer)

theorem StructWritten.made {ctx : Context} {m : Memo} {s : StructDecl} {binding : StructBinding}
    {code : Code} (h : StructWritten ctx m s binding code) (hs : s ∈ ctx.interface.structs)
    (hb : ctx.isBound s.name = true) :
    ∃ fields, StructMade ctx m binding fields ∧ binding.native = s.name ∧
      code.Outlined ctx.Bound (structOutline binding.native fields) := by
  obtain ⟨t, t', hwritten, hgrows⟩ := h
  obtain ⟨fields, hfields, houtlined, hnative, hcollector⟩ := bindStruct_outlined hwritten
  have hlisted := bindStruct_grows_listed ctx s t
  rw [hwritten] at hlisted
  rw [← hnative] at houtlined hb
  exact ⟨fields, ⟨hb, ⟨s, hs, hnative.symm, t.memo, _, Prod.ext hfields rfl, hlisted.trans hgrows⟩,
    hcollector⟩, hnative, houtlined⟩

/-- What a round makes of some structs: the bound ones are written or failed, and no others. -/
structure Rounded (ctx : Context) (m : Memo) (structs : List StructDecl) (r : Settled) : Prop where
  written : ∀ e ∈ r.written, ∃ s ∈ structs, s.name = e.1 ∧ ctx.isBound s.name = true ∧
    StructWritten ctx m s e.2.1 e.2.2
  failed : ∀ e ∈ r.failed, ctx.isBound e.1 = true
  all : ∀ s ∈ structs, ctx.isBound s.name = true →
    s.name ∈ r.written.map (·.1) ∨ s.name ∈ r.failed.map (·.1)

variable {ctx : Context}

theorem structRound_grows (ctx : Context) (structs : List StructDecl) :
    (structRound ctx structs).Grows := by
  induction structs with
  | nil => exact .pure _
  | cons s rest ih =>
    unfold structRound
    split
    · exact ih
    · refine (chunk_grows (bindStruct_grows ctx s)).bind fun answer => ?_
      split <;> exact ih.bind fun _ => .pure _

/-- The course of a round over some structs, from the memo `m` to the memo `m'`. -/
inductive Round (ctx : Context) : List StructDecl → Memo → Settled → Memo → Prop
  | nil {m : Memo} : Round ctx [] m {} m
  | skipped {s : StructDecl} {rest : List StructDecl} {m m' : Memo} {r : Settled}
      (hb : ctx.isBound s.name = false) (h : Round ctx rest m r m') : Round ctx (s :: rest) m r m'
  | written {s : StructDecl} {rest : List StructDecl} {m m₁ m' : Memo} {r : Settled}
      {binding : StructBinding} {code : Code} (hb : ctx.isBound s.name = true)
      (hchunk : (chunk (bindStruct ctx s)).run m = (.ok (binding, code), m₁))
      (h : Round ctx rest m₁ r m') :
      Round ctx (s :: rest) m { r with written := (s.name, binding, code) :: r.written } m'
  | failed {s : StructDecl} {rest : List StructDecl} {m m₁ m' : Memo} {r : Settled} {fault : Fault}
      (hb : ctx.isBound s.name = true)
      (hchunk : (chunk (bindStruct ctx s)).run m = (.error fault, m₁)) (h : Round ctx rest m₁ r m') :
      Round ctx (s :: rest) m { r with failed := (s.name, fault) :: r.failed } m'

theorem structRound_run {structs : List StructDecl} : ∀ {m m' : Memo} {r : Settled},
    (structRound ctx structs).run m = (r, m') ↔ Round ctx structs m r m' := by
  induction structs with
  | nil =>
    intro m m' r
    rw [structRound, Classifying.run_pure_eq]
    constructor
    · rintro ⟨rfl, rfl⟩
      exact .nil
    · rintro ⟨⟩
      exact ⟨rfl, rfl⟩
  | cons s rest ih =>
    intro m m' r
    unfold structRound
    by_cases hb : ctx.isBound s.name = true
    · rw [if_neg (by simp [hb])]
      constructor
      · intro h
        obtain ⟨answer, m₁, hchunk, h₁⟩ := Classifying.run_bind_eq.mp h
        cases answer <;> obtain ⟨r', m₂, hrest, hreturn⟩ := Classifying.run_bind_eq.mp h₁ <;>
          obtain ⟨rfl, rfl⟩ := Classifying.run_pure_eq.mp hreturn
        · exact .failed hb hchunk (ih.mp hrest)
        · exact .written hb hchunk (ih.mp hrest)
      · intro h
        cases h with
        | skipped hb' _ => exact absurd (hb.symm.trans hb') (by simp)
        | written _ hchunk h | failed _ hchunk h =>
          exact Classifying.run_bind_eq.mpr ⟨_, _, hchunk, Classifying.run_bind_eq.mpr
            ⟨_, _, ih.mpr h, rfl⟩⟩
    · rw [if_pos (by simpa using hb), ih]
      refine ⟨.skipped (by simpa using hb), fun h => ?_⟩
      cases h with
      | skipped _ h => exact h
      | written hb' _ _ | failed hb' _ _ => exact absurd hb' hb

theorem Round.grows {structs : List StructDecl} {m m' : Memo} {r : Settled}
    (h : Round ctx structs m r m') : m.Grows m' :=
  (structRound_grows ctx structs).of_run (structRound_run.mpr h)

theorem Round.rounded {structs : List StructDecl} {m m' : Memo} {r : Settled}
    (h : Round ctx structs m r m') : Rounded ctx m' structs r := by
  induction h with
  | nil => exact ⟨by simp, by simp, by simp⟩
  | @skipped s rest m m' r hb h ih =>
    refine ⟨fun e he => ?_, ih.failed, fun s' hs' hb' => ?_⟩
    · obtain ⟨s', hs', hfacts⟩ := ih.written e he
      exact ⟨s', List.mem_cons_of_mem _ hs', hfacts⟩
    · rcases List.mem_cons.mp hs' with rfl | hs'
      · exact absurd (hb'.symm.trans hb) (by simp)
      · exact ih.all s' hs' hb'
  | @written s rest m m₁ m' r binding code hb hchunk h ih =>
    obtain ⟨t', hwritten, rfl⟩ := chunk_ok.mp hchunk
    refine ⟨fun e he => ?_, ih.failed, fun s' hs' hb' => ?_⟩
    · rcases List.mem_cons.mp he with rfl | he
      · exact ⟨s, List.mem_cons_self, rfl, hb, _, _, hwritten, h.grows⟩
      · obtain ⟨s', hs', hfacts⟩ := ih.written e he
        exact ⟨s', List.mem_cons_of_mem _ hs', hfacts⟩
    · rcases List.mem_cons.mp hs' with rfl | hs'
      · exact .inl List.mem_cons_self
      · exact (ih.all s' hs' hb').imp_left (List.mem_cons_of_mem _)
  | @failed s rest m m₁ m' r fault hb hchunk h ih =>
    refine ⟨fun e he => ?_, List.forall_mem_cons.mpr ⟨hb, ih.failed⟩, fun s' hs' hb' => ?_⟩
    · obtain ⟨s', hs', hfacts⟩ := ih.written e he
      exact ⟨s', List.mem_cons_of_mem _ hs', hfacts⟩
    · rcases List.mem_cons.mp hs' with rfl | hs'
      · exact .inr List.mem_cons_self
      · exact (ih.all s' hs' hb').imp_right (List.mem_cons_of_mem _)

theorem structRound_spec {structs : List StructDecl} {m m' : Memo} {r : Settled}
    (h : (structRound ctx structs).run m = (r, m')) : Rounded ctx m' structs r :=
  (structRound_run.mp h).rounded

/-! ## Unbinding -/

theorem unbind_isBound (names : List String) (name : String) :
    (ctx.unbind names).isBound name = (ctx.isBound name && !names.contains name) := by
  apply Bool.eq_iff_iff.mpr
  simp only [Context.unbind, Context.isBound, List.contains_iff_mem, List.mem_filter,
    Bool.and_eq_true]

theorem unbind_length_lt {names : List String} {name : String} (hb : ctx.isBound name = true)
    (hn : name ∈ names) : (ctx.unbind names).bound.length < ctx.bound.length := by
  refine List.length_filter_lt_length_iff_exists.mpr ⟨name, ?_, ?_⟩
  · exact List.contains_iff_mem.mp hb
  · simp [hn]

/-- A context that is the same but for the structs that are bound, of which it may have fewer. -/
structure Context.Narrows (ctx ctx' : Context) : Prop where
  same : { ctx' with bound := ctx.bound } = ctx
  bound : ∀ name, ctx'.isBound name = true → ctx.isBound name = true

theorem Context.Narrows.refl (ctx : Context) : ctx.Narrows ctx := ⟨rfl, fun _ h => h⟩

theorem Context.Narrows.unbind {ctx' : Context} {names : List String}
    (h : (ctx.unbind names).Narrows ctx') : ctx.Narrows ctx' where
  same := by
    have hsame := congrArg (fun c : Context => { c with bound := ctx.bound }) h.same
    exact hsame
  bound := by
    intro name hb
    have hleft := h.bound name hb
    rw [unbind_isBound, Bool.and_eq_true] at hleft
    exact hleft.1

/-! ## Until none fails -/

/-- What is settled: every bound struct is written, and nothing that failed is bound. -/
structure IsSettled (ctx : Context) (m : Memo) (settled : Settled) : Prop where
  written : ∀ e ∈ settled.written, ∃ s ∈ ctx.interface.structs, s.name = e.1 ∧
    ctx.isBound s.name = true ∧ StructWritten ctx m s e.2.1 e.2.2
  all : ∀ s ∈ ctx.interface.structs, ctx.isBound s.name = true →
    s.name ∈ settled.written.map (·.1)
  failed : ∀ e ∈ settled.failed, ctx.isBound e.1 = false

/-- The rounds that are left are more than the bound structs, so one of them is without a failure. -/
theorem settleWithin_settled : ∀ {rounds : Nat} {ctx ctx' : Context}
    {failed : List (String × Fault)} {m m' : Memo} {settled : Settled},
      ctx.bound.length < rounds → (∀ e ∈ failed, ctx.isBound e.1 = false) →
      (settleWithin rounds ctx failed).run m = ((ctx', settled), m') →
      ctx.Narrows ctx' ∧ IsSettled ctx' m' settled := by
  intro rounds
  induction rounds with
  | zero => intro _ _ _ _ _ _ hlt; exact absurd hlt (Nat.not_lt_zero _)
  | succ rounds ih =>
    intro ctx ctx' failed m m' settled hlt hfailed h
    obtain ⟨r, m₁, hround, h₁⟩ := Classifying.run_bind_eq.mp h
    obtain ⟨written, stillBound, all⟩ := structRound_spec hround
    by_cases hnone : r.failed.isEmpty = true
    · rw [if_pos hnone] at h₁
      obtain ⟨heq, rfl⟩ := Classifying.run_pure_eq.mp h₁
      cases heq
      refine ⟨.refl ctx, written, fun s hs hb => ?_, hfailed⟩
      rcases all s hs hb with hmem | hmem
      · exact hmem
      · rw [List.isEmpty_iff.mp hnone] at hmem
        exact absurd hmem List.not_mem_nil
    · rw [if_neg hnone] at h₁
      -- whatever failed was bound, so that a round is paid for with a struct
      obtain ⟨e, he⟩ := List.exists_mem_of_ne_nil _ (by simpa using hnone)
      have hmem : e.1 ∈ r.failed.map (·.1) := List.mem_map_of_mem he
      have hfewer := unbind_length_lt (stillBound e he) hmem
      have hfailed' : ∀ e ∈ failed ++ r.failed,
          (ctx.unbind (r.failed.map (·.1))).isBound e.1 = false := by
        intro e' he'
        rw [unbind_isBound]
        rcases List.mem_append.mp he' with he' | he'
        · rw [hfailed e' he', Bool.false_and]
        · have hmem' : e'.1 ∈ r.failed.map (·.1) := List.mem_map_of_mem he'
          rw [List.contains_iff_mem.mpr hmem', Bool.not_true, Bool.and_false]
      obtain ⟨narrows, hsettled⟩ := ih (by omega) hfailed' h₁
      exact ⟨narrows.unbind, hsettled⟩

/-- **Settling ends with exactly the bound structs written.** -/
theorem settle_settled {ctx' : Context} {m m' : Memo} {settled : Settled}
    (h : (settle ctx).run m = ((ctx', settled), m')) :
    ctx.Narrows ctx' ∧ IsSettled ctx' m' settled :=
  settleWithin_settled (Nat.lt_succ_self _) (by simp) h

end LuaGlue
