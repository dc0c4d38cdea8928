import LuaGlue.Proofs.Generate.Module
import LuaGlue.Proofs.Generate.Settle
import LuaGlue.Proofs.Userdata.Mirrors
import Mathlib.Data.List.Basic

/-!
# How many rounds it takes

Whether the glue of a struct can be written does not depend on which structs are bound
(`structFails_rebound`), and what has been found out in a first round answers all that is asked later
(`chunk_again`). So when the structs that failed in the first round are unbound, no other fails in the
second (`Round.again`), which finds out nothing, and settling takes two rounds at most
(`settle_two_rounds`).

The function that settles is given a number of rounds it may take. `Rounds` is the same loop without such a
number.
-/

set_option autoImplicit false

namespace LuaGlue

variable {ctx : Context} {bound : List String} {structs : List StructDecl} {m m₁ m' : Memo} {r : Settled}

/-! ## Failing does not depend on what is bound -/

/-- From a memo, a struct's glue cannot be written, and this is why. -/
def StructFails (ctx : Context) (m : Memo) (s : StructDecl) (fault : Fault) : Prop :=
  ((chunk (bindStruct ctx s)).run m).1 = .error fault

theorem Outcome.Agree.fault_iff {α α' : Type} {R : α → α' → Prop} {o : Outcome α} {o' : Outcome α'}
    (h : o.Agree R o') (fault : Fault) : o'.toExcept = .error fault ↔ o.toExcept = .error fault := by
  cases o <;> cases o'
  · simp [Outcome.toExcept]
  · exact h.elim
  · exact h.elim
  · obtain rfl : _ = _ := h
    simp [Outcome.toExcept]

/-- **Whether a struct fails, and why, does not depend on which structs are bound.** -/
theorem structFails_rebound (s : StructDecl) (fault : Fault) :
    StructFails (ctx.rebound bound) m s fault ↔ StructFails ctx m s fault := by
  have hmirrors : (bindStruct ctx s).MirrorsBy Eq (bindStruct (ctx.rebound bound) s) ⟨m, 0⟩ :=
    bindStruct_mirrors s
  exact (hmirrors.now ⟨m, 0⟩ rfl).1.fault_iff fault

/-- What a struct has come to once, it comes to at any later time, and with other structs bound. -/
theorem chunk_again {s : StructDecl} {answer : Except Fault (StructBinding × Code)}
    (h : (chunk (bindStruct ctx s)).run m = (answer, m₁)) (hm : m₁.Grows m') (bound : List String) :
    (∀ fault, StructFails (ctx.rebound bound) m' s fault ↔ answer = .error fault) ∧
      ((chunk (bindStruct (ctx.rebound bound) s)).run m').2 = m' := by
  obtain ⟨rfl, rfl⟩ := Prod.mk.inj h
  have hmirrors : (bindStruct ctx s).MirrorsBy Eq (bindStruct (ctx.rebound bound) s) ⟨m, 0⟩ :=
    bindStruct_mirrors s
  obtain ⟨hagree, hmemo⟩ := hmirrors.later ⟨m', 0⟩ hm
  exact ⟨hagree.fault_iff, hmemo⟩

/-- What fails in a round is what fails at any later time, whatever is bound then. -/
theorem Round.failed_iff (h : Round ctx structs m r m₁) (hm : m₁.Grows m') (name : String)
    (fault : Fault) : (name, fault) ∈ r.failed ↔ ∃ s ∈ structs, s.name = name ∧
      ctx.isBound name = true ∧ StructFails (ctx.rebound bound) m' s fault := by
  induction h with
  | nil => simp
  | skipped hb _ ih =>
    rw [ih hm, List.exists_mem_cons_iff]
    refine ⟨.inr, fun hor => hor.resolve_left ?_⟩
    rintro ⟨rfl, hb', -⟩
    exact absurd (hb'.symm.trans hb) (by simp)
  | written hb hchunk h ih =>
    rw [ih hm, List.exists_mem_cons_iff]
    refine ⟨.inr, fun hor => hor.resolve_left ?_⟩
    rintro ⟨-, -, hfails⟩
    exact absurd ((chunk_again hchunk (h.grows.trans hm) bound).1 fault |>.mp hfails) (by simp)
  | failed hb hchunk h ih =>
    rw [List.mem_cons, ih hm, List.exists_mem_cons_iff, Prod.mk.injEq,
      (chunk_again hchunk (h.grows.trans hm) bound).1 fault]
    refine or_congr ⟨?_, ?_⟩ Iff.rfl
    · rintro ⟨rfl, rfl⟩
      exact ⟨rfl, hb, rfl⟩
    · rintro ⟨rfl, -, heq⟩
      exact ⟨rfl, (Except.error.inj heq).symm⟩

/-! ## Another round -/

/-- **With what failed unbound, none fails in another round**, and nothing is found out by it. -/
theorem Round.again (h : Round ctx structs m r m₁) (bound : List String) (hm : m₁.Grows m')
    (hless : ∀ name, (ctx.rebound bound).isBound name = true → ctx.isBound name = true)
    (hout : ∀ e ∈ r.failed, (ctx.rebound bound).isBound e.1 = false) :
    ∃ written, Round (ctx.rebound bound) structs m' { written := written } m' := by
  induction h with
  | nil => exact ⟨[], .nil⟩
  | @skipped s _ _ _ _ hb _ ih =>
    obtain ⟨written, hrest⟩ := ih hm hout
    refine ⟨written, .skipped ?_ hrest⟩
    cases hb' : (ctx.rebound bound).isBound s.name with
    | false => rfl
    | true => exact absurd ((hless _ hb').symm.trans hb) (by simp)
  | @written s _ _ _ _ _ _ _ hb hchunk h ih =>
    obtain ⟨written, hrest⟩ := ih hm hout
    cases hb' : (ctx.rebound bound).isBound s.name with
    | false => exact ⟨written, .skipped hb' hrest⟩
    | true =>
      obtain ⟨hfails, hmemo⟩ := chunk_again hchunk (h.grows.trans hm) bound
      cases hagain : ((chunk (bindStruct (ctx.rebound bound) s)).run m').1 with
      | ok given => exact ⟨_, .written hb' (Prod.ext hagain hmemo) hrest⟩
      | error fault => exact absurd ((hfails fault).mp hagain) (by simp)
  | failed _ _ _ ih =>
    obtain ⟨hs, hrest⟩ := List.forall_mem_cons.mp hout
    obtain ⟨written, hround⟩ := ih hm hrest
    exact ⟨written, .skipped hs hround⟩

/-- A round in which none fails writes the bound structs in their order. -/
theorem Round.names (h : Round ctx structs m r m') (hnone : r.failed = []) :
    r.written.map (·.1) = (structs.map (·.name)).filter ctx.isBound := by
  induction h with
  | nil => rfl
  | skipped hb _ ih => rw [ih hnone, List.map_cons, List.filter_cons_of_neg (by simp [hb])]
  | written hb _ _ ih =>
    rw [List.map_cons, List.map_cons, List.filter_cons_of_pos hb]
    exact congrArg _ (ih hnone)
  | failed => exact absurd hnone (by simp)

/-- What a round writes is the chunk of a bound struct, written in the course of the round. -/
theorem Round.written_chunk (h : Round ctx structs m r m') : ∀ e ∈ r.written, ∃ s ∈ structs,
    s.name = e.1 ∧ ctx.isBound s.name = true ∧
      ∃ n n', m.Grows n ∧ (chunk (bindStruct ctx s)).run n = (.ok e.2, n') ∧ n'.Grows m' := by
  induction h with
  | nil => simp
  | skipped _ _ ih =>
    intro e he
    obtain ⟨s, hs, hfacts⟩ := ih e he
    exact ⟨s, List.mem_cons_of_mem _ hs, hfacts⟩
  | @written s _ m _ _ _ _ _ hb hchunk h ih =>
    have hgrows := (chunk_grows (bindStruct_grows ctx s)).of_run hchunk
    refine List.forall_mem_cons.mpr ⟨⟨s, List.mem_cons_self, rfl, hb, m, _, .refl _, hchunk, h.grows⟩,
      fun e he => ?_⟩
    obtain ⟨s', hs', hname, hb', n, n', hn, hfacts⟩ := ih e he
    exact ⟨s', List.mem_cons_of_mem _ hs', hname, hb', n, n', hgrows.trans hn, hfacts⟩
  | @failed s _ _ _ _ _ _ _ hchunk _ ih =>
    have hgrows := (chunk_grows (bindStruct_grows ctx s)).of_run hchunk
    intro e he
    obtain ⟨s', hs', hname, hb', n, n', hn, hfacts⟩ := ih e he
    exact ⟨s', List.mem_cons_of_mem _ hs', hname, hb', n, n', hgrows.trans hn, hfacts⟩

/-! ## The loop -/

/-- Round by round without a bound on their number: what fails is unbound, until none fails. `n` is how many
rounds there are. -/
inductive Rounds : Nat → Context → List (String × Fault) → Memo → Context × Settled → Memo → Prop
  | last {ctx : Context} {failed : List (String × Fault)} {m m' : Memo} {r : Settled}
      (h : Round ctx ctx.interface.structs m r m') (hnone : r.failed = []) :
      Rounds 1 ctx failed m (ctx, { r with failed := failed }) m'
  | again {n : Nat} {ctx : Context} {failed : List (String × Fault)} {m m₁ m' : Memo} {r : Settled}
      {ended : Context × Settled} (h : Round ctx ctx.interface.structs m r m₁) (hsome : r.failed ≠ [])
      (hrest : Rounds n (ctx.unbind (r.failed.map (·.1))) (failed ++ r.failed) m₁ ended m') :
      Rounds (n + 1) ctx failed m ended m'

/-- The loop is what is computed within any number of rounds that is large enough. -/
theorem Rounds.within {n : Nat} {failed : List (String × Fault)} {ended : Context × Settled}
    (h : Rounds n ctx failed m ended m') : ∀ {rounds : Nat}, n ≤ rounds →
      (settleWithin rounds ctx failed).run m = (ended, m') := by
  induction h with
  | last h hnone =>
    intro rounds hle
    obtain ⟨rounds, rfl⟩ := Nat.exists_eq_add_of_le' hle
    refine Classifying.run_bind_eq.mpr ⟨_, _, structRound_run.mpr h, ?_⟩
    rw [if_pos (by simp [hnone])]
    rfl
  | again h hsome _ ih =>
    intro rounds hle
    obtain ⟨rounds, rfl⟩ := Nat.exists_eq_add_of_le' (Nat.le_of_add_left_le hle)
    refine Classifying.run_bind_eq.mpr ⟨_, _, structRound_run.mpr h, ?_⟩
    rw [if_neg (by simpa using hsome)]
    exact ih (Nat.le_of_succ_le_succ hle)

/-- A first round, after which there is at most one more: the last round, beginning at some time `start`. -/
theorem Round.ends (h : Round ctx ctx.interface.structs m r m') :
    ∃ n ≤ 2, n ≤ ctx.bound.length + 1 ∧ ∃ written start, m.Grows start ∧
      Round (ctx.unbind (r.failed.map (·.1))) ctx.interface.structs start { written := written } m' ∧
      Rounds n ctx [] m
        (ctx.unbind (r.failed.map (·.1)), { written := written, failed := r.failed }) m' := by
  by_cases hnone : r.failed = []
  · have hsame : ctx.unbind (r.failed.map (·.1)) = ctx := by simp [Context.unbind, hnone]
    have hr : r = { written := r.written } := by rw [← hnone]
    rw [hsame, hnone]
    refine ⟨1, by omega, by omega, r.written, m, .refl _, ?_, .last h hnone⟩
    rw [← hr]
    exact h
  · -- a struct that failed was bound, so that there is room for another round
    obtain ⟨e, he⟩ := List.exists_mem_of_ne_nil _ hnone
    have hroom := unbind_length_lt (h.rounded.failed e he) (List.mem_map_of_mem he)
    have hless : ∀ name, (ctx.unbind (r.failed.map (·.1))).isBound name = true →
        ctx.isBound name = true := by
      intro name hb
      rw [unbind_isBound, Bool.and_eq_true] at hb
      exact hb.1
    have hout : ∀ e ∈ r.failed, (ctx.unbind (r.failed.map (·.1))).isBound e.1 = false := by
      intro e he
      rw [unbind_isBound, List.contains_iff_mem.mpr (List.mem_map_of_mem he), Bool.not_true,
        Bool.and_false]
    obtain ⟨written, hagain⟩ := h.again _ (.refl _) hless hout
    exact ⟨2, by omega, by omega, written, m', h.grows, hagain, .again h hnone (.last hagain rfl)⟩

/-! ## Settling -/

/-- What settling comes to, that begins with a context and a memo and ends with others. -/
structure Settlement (ctx : Context) (m : Memo) (ctx' : Context) (settled : Settled) (m' : Memo) :
    Prop where
  /-- The loop ends by itself, after two rounds at most. -/
  rounds : ∃ n ≤ 2, Rounds n ctx [] m (ctx', settled) m'
  /-- In the first round the same failed, and all was found out. -/
  first : ∃ written, (structRound ctx ctx.interface.structs).run m =
    ({ written := written, failed := settled.failed }, m')
  /-- Whatever is bound, the same would fail now. -/
  fails : ∀ bound name fault, (name, fault) ∈ settled.failed ↔
    ∃ s ∈ ctx.interface.structs, s.name = name ∧ ctx.isBound name = true ∧
      StructFails (ctx.rebound bound) m' s fault
  /-- What failed is unbound, and nothing else. -/
  unbound : ctx' = ctx.unbind (settled.failed.map (·.1))
  /-- By that no other has come to fail. -/
  left : ∀ s ∈ ctx.interface.structs, ctx'.isBound s.name = true →
    ∀ fault, ¬ StructFails ctx' m' s fault
  /-- The bound structs are written, in their order. -/
  names : settled.written.map (·.1) = (ctx.interface.structs.map (·.name)).filter ctx'.isBound
  /-- Each is written as it is in the final context. -/
  written : ∀ e ∈ settled.written, ∃ s ∈ ctx.interface.structs, s.name = e.1 ∧
    ctx'.isBound s.name = true ∧
      ∃ n n', m.Grows n ∧ (chunk (bindStruct ctx' s)).run n = (.ok e.2, n') ∧ n'.Grows m'
  /-- Nothing else is bound. -/
  bound : ∀ name, ctx'.isBound name = true ↔ name ∈ settled.written.map (·.1)

theorem settle_settlement (hdeclared : ∀ name, ctx.isBound name = true →
      ∃ s ∈ ctx.interface.structs, s.name = name) :
    Settlement ctx m ((settle ctx).run m).1.1 ((settle ctx).run m).1.2 ((settle ctx).run m).2 := by
  rcases hround : (structRound ctx ctx.interface.structs).run m with ⟨r, m'⟩
  have h := structRound_run.mp hround
  obtain ⟨n, htwo, hroom, written, start, hstart, hlast, hrounds⟩ := h.ends
  have hrun : (settle ctx).run m = _ := hrounds.within hroom
  have hnames := hlast.names rfl
  rw [hrun]
  refine
    { rounds := ⟨n, htwo, hrounds⟩, first := ⟨r.written, hround⟩,
      fails := fun bound => h.failed_iff (.refl _), unbound := rfl, left := fun s hs hb fault hfails => ?_,
      names := hnames, written := fun e he => ?_, bound := fun name => ?_ }
  · rw [unbind_isBound, Bool.and_eq_true] at hb
    have hfailed := (h.failed_iff (.refl _) s.name fault).mpr ⟨s, hs, rfl, hb.1, hfails⟩
    rw [List.contains_iff_mem.mpr (List.mem_map_of_mem hfailed)] at hb
    exact absurd hb.2 (by simp)
  · obtain ⟨s, hs, hname, hb, n, n', hn, hfacts⟩ := hlast.written_chunk e he
    exact ⟨s, hs, hname, hb, n, n', hstart.trans hn, hfacts⟩
  · rw [hnames, List.mem_filter, List.mem_map, and_iff_right_of_imp]
    intro hb
    rw [unbind_isBound, Bool.and_eq_true] at hb
    exact hdeclared name hb.1

/-- **Settling takes two rounds at most.** What fails is what fails in the first round, and it would fail
whatever was bound; what is left is written in the last round. -/
theorem settle_two_rounds (i : Interface) (manifest : Manifest) (m₀ : Memo) :
    let built := (Context.build i manifest).run m₀
    let ended := (settle built.1).run built.2
    built.1.interface = i ∧ Settlement built.1 built.2 ended.1.1 ended.1.2 ended.2 ∧
      ∀ bound m s fault, StructFails (built.1.rebound bound) m s fault ↔ StructFails built.1 m s fault := by
  intro built ended
  obtain ⟨hinterface, -, hdeclared⟩ :=
    contextBuild_spec (show (Context.build i manifest).run m₀ = (built.1, built.2) from rfl)
  refine ⟨hinterface, settle_settlement fun name hb => ?_, fun _ _ => structFails_rebound⟩
  rw [hinterface]
  exact hdeclared name hb

/-- A struct whose glue cannot be written, and one with an array of it. In the first round the setter of the
array calls a converter, which in the second there is not. -/
def hollowCore : Interface where
  decls :=
    [.struct ⟨"Shell", [⟨"cores", "Core[2]"⟩], []⟩,
     .struct ⟨"Core", [⟨"hole", "void"⟩], []⟩]

example :
    let (ctx, settled) := Classifying.fresh (Context.build hollowCore {} >>= settle)
    settled.failed.map (·.1) = ["Core"] ∧ settled.written.map (·.1) = ["Shell"] ∧
      ctx.bound = ["Shell"] := by
  decide +kernel

end LuaGlue
