import LuaGlue.Proofs.Keep.Reach
import LuaGlue.Proofs.Marshal.Faults
import Mathlib.Logic.Relation

/-!
# Types inside types

A manifest can say of a tuple that it has itself among its members, and then its type goes on forever.
Marshaling it does not. A recursion over the parts of a type goes from an array to its elements, whose
spelling shows a dimension less, and from a tuple to its members, whose spelling can be any at all but
stands one level further in (`GoesOn`). Levels and dimensions together go down with every step
(`goesOn_wellFounded`), and the bound on the dimensions that `pushWith` and `readWith` carry never
cuts anything off (`pushWith_rank`, `readWith_rank`).

What the levels do cut off is the tuple that contains itself. Going round once goes in at least one
tuple further, so the way round leads past every limit (`Meets.not_containsItself`), and a type that is
marshaled has none. No other type is cut off: a fault for the depth means that some tuple does stand
inside of eight others (`not_nestsWithin_of_tooDeep`).
-/

set_option autoImplicit false

namespace LuaGlue

/-! ## Where the recursions go -/

/-- From a spelling, with some levels left, a recursion over the parts of a type goes on to the
elements of an array or to the members of a tuple. At an array, `keepsWithin` uses up a level and the
others do not. -/
inductive GoesOn (ctx : Context) : Nat × String → Nat × String → Prop where
  | element {levels levels' spelling elem} (he : elementType? spelling = some elem)
      (hlevels : levels' ≤ levels) : GoesOn ctx (levels, spelling) (levels', elem)
  | member {levels spelling name members member} (hm : ctx.tupleMembers name = .ok members)
      (hmem : member ∈ members) : GoesOn ctx (levels + 1, spelling) (levels, member.type)

/-- **No recursion over the parts of a type goes on forever.** A member's spelling can be longer than
that of its tuple, so the levels come first. -/
theorem goesOn_wellFounded (ctx : Context) : WellFounded fun next here => GoesOn ctx here next := by
  refine Subrelation.wf (fun {next here} h => ?_)
    (InvImage.wf (fun p : Nat × String => (p.1, arrayRank p.2))
      (Prod.lex Nat.lt_wfRel Nat.lt_wfRel).wf)
  cases h with
  | @element levels levels' _ elem he hlevels =>
    have hrank : arrayRank elem < arrayRank elem + 1 := Nat.lt_succ_self _
    rw [← arrayRank_eq he] at hrank
    rcases Nat.lt_or_eq_of_le hlevels with hlt | rfl
    · exact .left _ _ hlt
    · exact .right _ hrank
  | member hm hmem => exact .left _ _ (Nat.lt_succ_self _)

section

variable {ctx : Context}

/-- **Any bound on the dimensions will do** that is no less than there are. -/
theorem pushWith_rank (tuple : String → Place → Draft Unit) :
    ∀ {rank : Nat} {spelling : String} {source : Place}, arrayRank spelling ≤ rank →
      pushWith ctx tuple rank spelling source =
        pushWith ctx tuple (arrayRank spelling) spelling source := by
  intro rank
  induction rank with
  | zero =>
    intro spelling source h
    rw [Nat.le_zero.mp h]
  | succ rank ih =>
    intro spelling source h
    cases he : elementType? spelling with
    | none =>
      generalize arrayRank spelling = other
      unfold pushWith
      cases other <;> simp only [he]
    | some elem =>
      rw [arrayRank_eq he] at h ⊢
      unfold pushWith
      simp only [he, ih (Nat.le_of_succ_le_succ h)]

theorem readWith_rank (tuple : ReadMode → String → Place → StackIndex → Draft Unit) :
    ∀ {rank : Nat} {mode : ReadMode} {spelling : String} {place : Place} {index : StackIndex},
      arrayRank spelling ≤ rank → readWith ctx tuple rank mode spelling place index =
        readWith ctx tuple (arrayRank spelling) mode spelling place index := by
  intro rank
  induction rank with
  | zero =>
    intro mode spelling place index h
    rw [Nat.le_zero.mp h]
  | succ rank ih =>
    intro mode spelling place index h
    cases he : elementType? spelling with
    | none =>
      generalize arrayRank spelling = other
      unfold readWith
      cases other <;> simp only [he]
    | some elem =>
      rw [arrayRank_eq he] at h ⊢
      unfold readWith
      simp only [he, ih (Nat.le_of_succ_le_succ h)]

end

/-! ## Tuples inside tuples -/

/-- In the parts of what is so spelled, the tuple `name` is met inside of `k` others. -/
def Meets (ctx : Context) (m : Memo) (action : Action) (spelling : String) (k : Nat) (name : String) :
    Prop :=
  ∃ part c, PartOf ctx m action k spelling part ∧ m.find? part = some c ∧ c.tuple? action = some name

/-- There are never more than `n` tuples inside one another. In pushing, a pointer to a tuple counts as
one. -/
def NestsWithin (ctx : Context) (m : Memo) (action : Action) (n : Nat) (spelling : String) : Prop :=
  ∀ k name, Meets ctx m action spelling k name → k < n

/-- The tuple that a value is, or that an array is made of. -/
def Category.heldTuple? : Category → Option String
  | .structValue name .tuple => some name
  | .fixedArray elem _ => elem.heldTuple?
  | _ => none

/-- What is so spelled is the tuple `name` or an array of it, in any number of dimensions. Where there
is an array and the spelling shows no dimension, the category says what it is made of. -/
inductive Holds (m : Memo) (action : Action) (name : String) : String → Prop where
  | tuple {spelling c} (hc : m.find? spelling = some c) (ht : c.tuple? action = some name) :
      Holds m action name spelling
  | element {spelling c elem} (hc : m.find? spelling = some c) (ha : c.isArray = true)
      (he : elementType? spelling = some elem) (inside : Holds m action name elem) :
      Holds m action name spelling
  | hidden {spelling c} (hc : m.find? spelling = some c) (ha : c.isArray = true)
      (he : elementType? spelling = none) (hheld : c.heldTuple? = some name) :
      Holds m action name spelling

/-- One of the members of the tuple `name` holds the tuple `other`. -/
def HasMember (ctx : Context) (m : Memo) (action : Action) (name other : String) : Prop :=
  ∃ members, ctx.tupleMembers name = .ok members ∧
    ∃ member ∈ members, Holds m action other member.type

/-- The tuple `name` has itself among its members, or among theirs, and so on: by value, as a value is
read, or also behind pointers, as it is pushed. -/
def ContainsItself (ctx : Context) (m : Memo) (action : Action) (name : String) : Prop :=
  Relation.TransGen (HasMember ctx m action) name name

section

variable {ctx : Context} {m : Memo} {action : Action} {levels k : Nat} {spelling part name : String}

theorem Category.tuple?_of_read {c : Category} (h : c.tuple? .read = some name) :
    c.tuple? action = some name := by
  cases c with
  | structValue _ shape => cases shape <;> exact h
  | structPointer _ shape _ => cases shape <;> cases h
  | _ => cases h

theorem Holds.of_value (h : Holds m .read name spelling) : Holds m action name spelling := by
  induction h with
  | tuple hc ht => exact .tuple hc (Category.tuple?_of_read ht)
  | element hc ha he _ ih => exact .element hc ha he ih
  | hidden hc ha he hheld => exact .hidden hc ha he hheld

/-- What contains itself by value does so however it is marshaled. -/
theorem ContainsItself.of_value (h : ContainsItself ctx m .read name) :
    ContainsItself ctx m action name :=
  Relation.TransGen.mono (fun _ _ ⟨members, hm, member, hmem, hheld⟩ =>
    ⟨members, hm, member, hmem, hheld.of_value⟩) _ _ h

/-- The parts of a part are parts, as much further in as the part is. -/
theorem PartOf.trans {j : Nat} {inner : String} (h : PartOf ctx m action k spelling part)
    (h' : PartOf ctx m action j part inner) : PartOf ctx m action (k + j) spelling inner := by
  induction h with
  | self => rwa [Nat.zero_add]
  | element hc ha he _ ih => exact .element hc ha he (ih h')
  | member hc ht hm hmem _ ih =>
    rw [Nat.add_right_comm]
    exact .member hc ht hm hmem (ih h')

/-- A part is reached step by step, at the cost of a level for every tuple that is gone into. -/
theorem PartOf.goesOn (h : PartOf ctx m action k spelling part) (levels : Nat) :
    Relation.ReflTransGen (GoesOn ctx) (levels + k, spelling) (levels, part) := by
  induction h with
  | self => exact .refl
  | element _ _ he _ ih => exact ih.head (.element he (Nat.le_refl _))
  | member _ _ hm hmem _ ih => exact ih.head (.member hm hmem)

/-- A tuple that is held is met at once, unless it is in an array that shows no dimension. -/
theorem Holds.cases_part (ctx : Context) (h : Holds m action name spelling) :
    Meets ctx m action spelling 0 name ∨
      ∃ array c, PartOf ctx m action 0 spelling array ∧ m.find? array = some c ∧
        c.isArray = true ∧ elementType? array = none := by
  induction h with
  | tuple hc ht => exact .inl ⟨_, _, .self, hc, ht⟩
  | element hc ha he _ ih =>
    rcases ih with ⟨part, c, hpart, hfound⟩ | ⟨array, c, hpart, hfound⟩
    · exact .inl ⟨part, c, .element hc ha he hpart, hfound⟩
    · exact .inr ⟨array, c, .element hc ha he hpart, hfound⟩
  | hidden hc ha he _ => exact .inr ⟨_, _, .self, hc, ha, he⟩

/-! ## What is marshaled does not contain itself -/

theorem nestsWithin_of_not_hindered (hno : ∀ fault, ¬ Hindered ctx m action levels spelling fault) :
    NestsWithin ctx m action levels spelling := by
  rintro k name ⟨part, c, hpart, hc, ht⟩
  exact Nat.lt_of_not_le fun hk => hno _ ⟨k, part, hpart, .tooDeep hc ht hk⟩

theorem meets_of_holds (hno : ∀ fault, ¬ Hindered ctx m action levels spelling fault)
    (hpart : PartOf ctx m action k spelling part) (h : Holds m action name part) :
    Meets ctx m action spelling k name := by
  rcases h.cases_part ctx with ⟨tuple, c, hinner, hfound⟩ | ⟨array, c, hinner, hc, ha, he⟩
  · exact ⟨tuple, c, hpart.trans hinner, hfound⟩
  · exact absurd ⟨k, array, hpart.trans hinner, .noDimension hc ha he⟩ (hno _)

/-- A step further in: what a tuple has for a member is met one tuple inside of it. -/
theorem Meets.member {other : String} (hno : ∀ fault, ¬ Hindered ctx m action levels spelling fault)
    (h : Meets ctx m action spelling k name) (hmember : HasMember ctx m action name other) :
    Meets ctx m action spelling (k + 1) other := by
  obtain ⟨part, c, hpart, hc, ht⟩ := h
  obtain ⟨members, hm, member, hmem, hheld⟩ := hmember
  exact meets_of_holds hno (hpart.trans (.member hc ht hm hmem .self)) hheld

theorem Meets.members {other : String} (hno : ∀ fault, ¬ Hindered ctx m action levels spelling fault)
    (h : Meets ctx m action spelling k name)
    (hmembers : Relation.TransGen (HasMember ctx m action) name other) :
    ∃ j, k < j ∧ Meets ctx m action spelling j other := by
  induction hmembers with
  | single hmember => exact ⟨k + 1, Nat.lt_succ_self k, h.member hno hmember⟩
  | tail _ hmember ih =>
    obtain ⟨j, hj, hmeets⟩ := ih
    exact ⟨j + 1, Nat.lt_succ_of_lt hj, hmeets.member hno hmember⟩

/-- **A tuple that contains itself is met at every depth**, and so it is met where no tuple may be. -/
theorem Meets.not_containsItself (hno : ∀ fault, ¬ Hindered ctx m action levels spelling fault)
    (h : Meets ctx m action spelling k name) : ¬ ContainsItself ctx m action name := by
  intro hself
  have further (n : Nat) : ∃ j, n ≤ j ∧ Meets ctx m action spelling j name := by
    induction n with
    | zero => exact ⟨k, Nat.zero_le k, h⟩
    | succ n ih =>
      obtain ⟨j, hj, hmeets⟩ := ih
      obtain ⟨j', hlt, hmeets'⟩ := hmeets.members hno hself
      exact ⟨j', by omega, hmeets'⟩
  obtain ⟨j, hj, hmeets⟩ := further levels
  exact absurd (nestsWithin_of_not_hindered hno j name hmeets) (by omega)

/-- Nothing but tuples that nest too deeply is refused for its depth. -/
theorem not_nestsWithin_of_tooDeep
    (h : Hindered ctx m action levels spelling (.tuple name .tooDeep)) :
    ¬ NestsWithin ctx m action levels spelling := by
  obtain ⟨k, part, hpart, h⟩ := h
  intro hnests
  cases h with
  | noMembers _ _ _ hm => cases hm
  | tooDeep hc ht hk => exact absurd (hnests k name ⟨part, _, hpart, hc, ht⟩) (by omega)

end

/-! ## How marshaling ends -/

/-- Marshaling ends with code that is written by the rules, and then no more than `maxNesting` tuples
are inside one another and none of them contains itself; or it ends with the fault of a hindered part,
which is not that of the depth unless there are more. -/
def Ends (ctx : Context) (action : Action) (spelling : String)
    (Rules : Memo → Nat → Code → Nat → Prop) (m : Draft Unit) (s : Scratch) : Prop :=
  (∃ code s', m s = (.written () code, s') ∧ Rules s'.memo s.temporaries code s'.temporaries ∧
    NestsWithin ctx s'.memo action maxNesting spelling ∧
    ∀ M, s'.memo.Grows M → ∀ k part name, PartOf ctx M action k spelling part →
      Holds M action name part →
        ¬ ContainsItself ctx M .read name ∧ ¬ ContainsItself ctx M action name) ∨
  ∃ fault events s', m s = (.torn fault events, s') ∧
    Hindered ctx s'.memo action maxNesting spelling fault ∧
    (NestsWithin ctx s'.memo action maxNesting spelling → ∀ name, fault ≠ .tuple name .tooDeep)

theorem Draft.FailsAs.ends {ctx : Context} {action : Action} {spelling : String}
    {Rules : Memo → Nat → Code → Nat → Prop} {m : Draft Unit} {s : Scratch}
    (h : m.FailsAs (fun fault M => Hindered ctx M action maxNesting spelling fault) s)
    (hrules : ∀ code s', m s = (.written () code, s') →
      Rules s'.memo s.temporaries code s'.temporaries) : Ends ctx action spelling Rules m s := by
  unfold Draft.FailsAs at h
  rcases hm : m s with ⟨⟨⟨⟩, code⟩ | ⟨fault, events⟩, s'⟩ <;> rw [hm] at h
  · refine .inl ⟨code, s', hm, hrules code s' hm,
      nestsWithin_of_not_hindered (h s'.memo (Memo.Grows.refl _)), fun M hM k part name hpart hheld => ?_⟩
    have hnot : ¬ ContainsItself ctx M action name :=
      (meets_of_holds (h M hM) hpart hheld).not_containsItself (h M hM)
    exact ⟨fun hself => hnot hself.of_value, hnot⟩
  · have hfault := h s'.memo (Memo.Grows.refl _)
    refine .inr ⟨fault, events, s', hm, hfault, ?_⟩
    rintro hnests name rfl
    exact not_nestsWithin_of_tooDeep hfault hnests

/-- **Pushing, reading, and asking for a keep table end on every spelling**, and by themselves: none of
the recursions goes on forever, and the bound on the dimensions cuts nothing off. What contains itself
is never marshaled, and only what nests too deeply is refused for it. -/
theorem marshaling_ends (ctx : Context) :
    (WellFounded fun next here => GoesOn ctx here next) ∧
    (∀ m action k spelling part levels, PartOf ctx m action k spelling part →
      Relation.ReflTransGen (GoesOn ctx) (levels + k, spelling) (levels, part)) ∧
    (∀ levels rank spelling source, arrayRank spelling ≤ rank →
      pushWith ctx (pushTuple ctx levels) rank spelling source =
        pushWith ctx (pushTuple ctx levels) (arrayRank spelling) spelling source) ∧
    (∀ levels rank mode spelling place index, arrayRank spelling ≤ rank →
      readWith ctx (readTuple ctx levels) rank mode spelling place index =
        readWith ctx (readTuple ctx levels) (arrayRank spelling) mode spelling place index) ∧
    (∀ spelling source s, Ends ctx .push spelling
      (fun m => Pushes ctx m (.value spelling source)) (push ctx spelling source) s) ∧
    (∀ mode spelling place index s, Ends ctx .read spelling
      (fun m => Reads ctx m (.value mode spelling place index)) (read ctx mode spelling place index) s) ∧
    ∀ spelling m M, ((needsKeep ctx spelling).run m).2.Grows M →
      (((needsKeep ctx spelling).run m).1 = true ↔
        ∃ k, k < maxNesting ∧ ReachesBound ctx M k spelling) :=
  ⟨goesOn_wellFounded ctx, fun _ _ _ _ _ levels h => h.goesOn levels, fun _ _ _ _ => pushWith_rank _, fun _ _ _ _ _ _ => readWith_rank _,
    fun _ _ _ => push_failsAs.ends fun _ _ => push_pushes,
    fun _ _ _ _ _ => read_failsAs.ends fun _ _ => read_reads,
    fun _ _ => needsKeep_decides⟩

/-- A tuple with an array of tuples in it, and a tuple with an array of itself. -/
def knottedContext : Context :=
  Classifying.fresh (Context.build {} { types := {
    tuples := [("Point", ["x:float", "y:float"]), ("Segment", ["ends:Point[2]"]),
      ("Knot", ["loops:Knot[2]"])] } })

/-- A pointer to a segment is pushed, and no point contains itself. A knot does, and is not read: more
than eight of them are inside one another. No keep table is asked for. -/
theorem marshaling_ends_knot :
    arrayRank "Point[2]" ≤ 5 ∧
    (∀ source, pushWith knottedContext (pushTuple knottedContext 2) 5 "Point[2]" source =
      pushWith knottedContext (pushTuple knottedContext 2) (arrayRank "Point[2]") "Point[2]" source) ∧
    (∃ code s', push knottedContext "Segment*" (.name "v") {} = (.written () code, s') ∧
      PartOf knottedContext s'.memo .push 1 "Segment*" "Point[2]" ∧
      Holds s'.memo .push "Point" "Point[2]" ∧
      ¬ ContainsItself knottedContext s'.memo .push "Point") ∧
    (∃ events s', read knottedContext .checked "Knot" (.name "v") (.slot 1) {} =
        (.torn (.tuple "Knot" .tooDeep) events, s') ∧
      ContainsItself knottedContext s'.memo .read "Knot" ∧
      ¬ NestsWithin knottedContext s'.memo .read maxNesting "Knot") ∧
    ¬ ∃ k, k < maxNesting ∧
      ReachesBound knottedContext ((needsKeep knottedContext "Knot").run {}).2 k "Knot" := by
  obtain ⟨-, -, hrank, -, hpush, hread, hkeep⟩ := marshaling_ends knottedContext
  -- what the memo says of a tuple, or of an array
  have tuple {M : Memo} {action : Action} {spelling name : String}
      (h : (M.find? spelling).bind (Category.tuple? action) = some name) :
      ∃ c, M.find? spelling = some c ∧ c.tuple? action = some name := Option.bind_eq_some_iff.mp h
  have array {M : Memo} {spelling : String} (h : (M.find? spelling).any Category.isArray = true) :
      ∃ c, M.find? spelling = some c ∧ c.isArray = true := Option.any_eq_true _ _ |>.mp h
  refine ⟨by decide +kernel, fun source => hrank 2 5 "Point[2]" source (by decide +kernel), ?_, ?_,
    (not_congr (hkeep "Knot" {} _ (Memo.Grows.refl _))).mp (by decide +kernel)⟩
  · obtain ⟨_, code, s', h, -⟩ := Draft.exists_written
      (push knottedContext "Segment*" (.name "v")) {} (fun _ => true) (by decide +kernel)
    have hs' : s' = (push knottedContext "Segment*" (.name "v") {}).2 := by rw [h]
    obtain ⟨_, hc, ht⟩ := @tuple s'.memo .push "Segment*" "Segment" (by rw [hs']; decide +kernel)
    obtain ⟨_, hc', ha⟩ := @array s'.memo "Point[2]" (by rw [hs']; decide +kernel)
    obtain ⟨_, hc'', ht''⟩ := @tuple s'.memo .push "Point" "Point" (by rw [hs']; decide +kernel)
    have hpart : PartOf knottedContext s'.memo .push 1 "Segment*" "Point[2]" :=
      .member hc ht rfl List.mem_cons_self .self
    have hheld : Holds s'.memo .push "Point" "Point[2]" :=
      .element hc' ha (by decide +kernel) (.tuple hc'' ht'')
    refine ⟨code, s', h, hpart, hheld, ?_⟩
    rcases hpush "Segment*" (.name "v") {} with ⟨_, _, h', -, -, hself⟩ | ⟨_, _, _, h', -⟩ <;>
      rw [h] at h' <;> cases h'
    exact (hself _ (Memo.Grows.refl _) _ _ _ hpart hheld).2
  · obtain ⟨events, s', h⟩ : ∃ events s',
        read knottedContext .checked "Knot" (.name "v") (.slot 1) {} =
          (.torn (.tuple "Knot" .tooDeep) events, s') := Draft.exists_torn _ _ (by decide +kernel)
    have hs' : s' = (read knottedContext .checked "Knot" (.name "v") (.slot 1) {}).2 := by rw [h]
    obtain ⟨_, hc, ht⟩ := @tuple s'.memo .read "Knot" "Knot" (by rw [hs']; decide +kernel)
    obtain ⟨_, hc', ha⟩ := @array s'.memo "Knot[2]" (by rw [hs']; decide +kernel)
    have hmember : HasMember knottedContext s'.memo .read "Knot" "Knot" :=
      ⟨[⟨"loops", "Knot[2]"⟩], rfl, _, List.mem_cons_self,
        .element hc' ha (by decide +kernel) (.tuple hc ht)⟩
    refine ⟨events, s', h, .single hmember, fun hnests => ?_⟩
    rcases hread .checked "Knot" (.name "v") (.slot 1) {} with
      ⟨_, _, h', -⟩ | ⟨_, _, _, h', -, hdeep⟩ <;> rw [h] at h' <;> cases h'
    exact hdeep hnests "Knot" rfl

/-- Nine tuples, each the only member of the one before it. -/
def nineContext : Context :=
  Classifying.fresh (Context.build {} { types := {
    tuples := ("T9", ["m:int"]) ::
      (List.range' 1 8).map fun n => ("T" ++ toString n, ["m:T" ++ toString (n + 1)]) } })

/-- Eight of them may be inside one another; the ninth is one too many. -/
example : (push nineContext "T2" (.name "v") {}).1.fault? = none ∧
    (push nineContext "T1" (.name "v") {}).1.fault? = some (.tuple "T9" .tooDeep) := by
  decide +kernel

end LuaGlue
