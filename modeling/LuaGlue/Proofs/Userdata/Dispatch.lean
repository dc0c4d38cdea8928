import LuaGlue.Proofs.Code.Calls
import LuaGlue.Proofs.Generate.Definitions
import LuaGlue.Proofs.Generate.Settle
import LuaGlue.Proofs.Userdata.Listing

/-!
# What a struct dispatches on

Three functions of a struct go by the keys of its accessors: `__index` compares a key with those that can
be read, `__newindex` with all, and the constructor fetches those that can be written from its table. What
they do is read off their code (`Code.dispatch`, `Code.fetches`), so that the three can be held against one
list (`GoesByKeys`).

Each calls getters and setters by name. No other function of the same struct is spelled like one of them,
whatever the struct and its fields are called (`accessor_spelling_inj`), so a name that is called is defined
once.
-/

set_option autoImplicit false

namespace LuaGlue

/-! ## Reading a function -/

/-- The function of the file that is called. -/
def Call.generated? (c : Call) : Option Symbol :=
  match c.callee with
  | .generated f => some f
  | _ => none

/-- The key that is fetched from the table in the first slot. -/
def Call.fetched? (c : Call) : Option String :=
  match c with
  | ⟨.api .getfield, [.state, .at (.slot 1), .literal key]⟩ => some key
  | _ => none

/-- The keys that are fetched, each with the functions of the file that are called before the next one. -/
def fetches : List Call → List (String × List Symbol)
  | [] => []
  | c :: rest =>
    match c.fetched? with
    | some key =>
      (key, (rest.takeWhile (·.fetched?.isNone)).filterMap Call.generated?) :: fetches rest
    | none => fetches rest

namespace Code

/-- The functions of the file that are called, in the order of the text. -/
def called (code : Code) : List Symbol := code.calls.filterMap Call.generated?

/-- The keys that `key` is compared with, each with the functions that are called if it is the one. -/
def dispatch : Code → List (String × List Symbol)
  | done => []
  | line _ next => next.dispatch
  | block _ body _ next => body.dispatch ++ next.dispatch
  | branch (.keyIs key) yes no next =>
    (key, yes.called) :: (yes.dispatch ++ (no.dispatch ++ next.dispatch))
  | branch _ yes no next => yes.dispatch ++ (no.dispatch ++ next.dispatch)

/-- The keys that are fetched from the table in the first slot. -/
def fetches (code : Code) : List (String × List Symbol) := LuaGlue.fetches code.calls

/-- What a function is defined by, as often as it is. -/
def bodies (code : Code) (f : Symbol) : List Code :=
  (code.definitions.filter (·.1 == f)).map (·.2)

@[simp] theorem called_append (a b : Code) : (a ++ b).called = a.called ++ b.called := by
  simp [called]

@[simp] theorem dispatch_append (a b : Code) : (a ++ b).dispatch = a.dispatch ++ b.dispatch := by
  induction a with
  | done => rfl
  | line l next ih => exact ih
  | block head body ending next _ ih => simp [dispatch, ih]
  | branch c yes no next _ _ ih => cases c <;> simp [dispatch, ih]

@[simp] theorem dispatch_ofLines (ls : List Line) : (ofLines ls).dispatch = [] := by
  induction ls with
  | nil => rfl
  | cons l rest ih => exact ih

@[simp] theorem dispatch_seq (cs : List Code) : (seq cs).dispatch = cs.flatMap dispatch := by
  induction cs with
  | nil => rfl
  | cons c rest ih => simp [seq, ih]

@[simp] theorem called_seq (cs : List Code) : (seq cs).called = cs.flatMap called := by
  induction cs with
  | nil => rfl
  | cons c rest ih => simp [seq, ih]

theorem definitions_seq (cs : List Code) : (seq cs).definitions = cs.flatMap definitions := by
  induction cs with
  | nil => rfl
  | cons c rest ih => rw [seq, definitions_append, ih, List.flatMap_cons]

/-- Bodies stand among what a text defines. -/
theorem definitions_sublist (code : Code) : (code.definitions.map (·.1)).Sublist code.defined := by
  induction code with
  | done => exact .slnil
  | line l next ih =>
    rw [defined, mentions, List.filterMap_append]
    exact ih.trans (List.sublist_append_right _ _)
  | block head body ending next _ ih =>
    rw [defined, mentions_block, List.filterMap_append, List.filterMap_append]
    have hrest := ih.trans (List.sublist_append_right (body.mentions.filterMap Mention.defined?) _)
    cases head with
    | define result f params => exact hrest.cons_cons f
    | bare | count | text => exact hrest
    | table type f size => exact hrest.cons f
  | branch c yes no next _ _ ih =>
    rw [defined, mentions, List.filterMap_append, List.filterMap_append, List.filterMap_append]
    exact ih.trans ((List.sublist_append_right _ _).trans ((List.sublist_append_right _ _).trans
      (List.sublist_append_right _ _)))

/-- A function that is defined once has one body. -/
theorem bodies_eq {code body : Code} {f : Symbol} (hcode : code.defined.Nodup)
    (h : (f, body) ∈ code.definitions) : code.bodies f = [body] := by
  have hnodup := hcode.sublist code.definitions_sublist
  unfold bodies
  obtain ⟨before, later, heq⟩ := List.append_of_mem h
  rw [heq, List.map_append, List.map_cons, List.nodup_append, List.nodup_cons] at hnodup
  obtain ⟨-, ⟨hlater, -⟩, hbefore⟩ := hnodup
  -- neither before nor later is a function of this name
  have hnone {ds : List (Symbol × Code)} (hds : f ∉ ds.map (·.1)) : ds.filter (·.1 == f) = [] := by
    refine List.filter_eq_nil_iff.mpr fun d hd heq => hds ?_
    rw [← eq_of_beq heq]
    exact List.mem_map_of_mem hd
  have hfirst : f ∉ before.map (·.1) := fun hf => hbefore f hf f List.mem_cons_self rfl
  rw [heq, List.filter_append, List.filter_cons_of_pos (by simp), hnone hfirst, hnone hlater]
  rfl

end Code

/-! ## Comparing -/

theorem scriptFunction_definitions (f : Symbol) (body : Code) :
    (scriptFunction f body).definitions = [(f, body)] := rfl

/-- A function that compares `key` with the keys of some accessors, and calls `calls a` for that of `a`. -/
structure Code.Compares (keys : List Accessor) (calls : Accessor → List Symbol) (body : Code) : Prop where
  dispatch : body.dispatch = keys.map fun a => (a.key, calls a)
  called : body.called = keys.flatMap calls

/-- Branches for keys between lines that call nothing of the file. -/
theorem compares_of_branches {before later : List Line} {keys : List Accessor}
    {inside : Accessor → List Line} {calls : Accessor → List Symbol}
    (hbefore : (Code.ofLines before).called = []) (hlater : (Code.ofLines later).called = [])
    (hinside : ∀ a, (Code.ofLines (inside a)).called = calls a) :
    (Code.seq [.ofLines before,
      .seq (keys.map fun a => .branchOf (.keyIs a.key) (.ofLines (inside a))),
      .ofLines later]).Compares keys calls where
  dispatch := by
    have hbranch (a : Accessor) : (Code.branchOf (.keyIs a.key) (.ofLines (inside a))).dispatch =
        [(a.key, calls a)] := by
      rw [← hinside a, Code.branchOf, Code.dispatch, Code.dispatch_ofLines]
      rfl
    simp only [Code.dispatch_seq, List.flatMap_cons, List.flatMap_nil, Code.dispatch_ofLines,
      List.flatMap_map, hbranch, List.nil_append, List.append_nil]
    exact List.map_eq_flatMap.symm
  called := by
    have hbranch (a : Accessor) : (Code.branchOf (.keyIs a.key) (.ofLines (inside a))).called =
        calls a := by
      rw [← hinside a]
      simp [Code.branchOf, Code.called, Code.calls, Cond.calls]
    simp only [Code.called_seq, List.flatMap_cons, List.flatMap_nil, hbefore, hlater,
      List.flatMap_map, hbranch, List.nil_append, List.append_nil]

section

variable (ctx : Context) (struct : String) (as : List Accessor)

theorem indexCode_compares : ∃ body, (indexCode ctx struct as).definitions = [(.indexer struct, body)] ∧
    body.Compares (as.filter (·.readable)) fun a => [.getter struct a.key] :=
  ⟨_, scriptFunction_definitions _ _, compares_of_branches rfl rfl fun _ => rfl⟩

/-- Assigning a key calls the setter, if there is one. -/
theorem assignKey_called (scriptName : String) (a : Accessor) :
    (Code.ofLines (assignKey struct scriptName a)).called =
      if a.writable then [.setter struct a.key] else [] := by
  unfold assignKey Accessor.writable
  cases a.access <;> rfl

theorem newIndexCode_compares (scriptName : String) :
    ∃ body, (newIndexCode ctx struct scriptName as).definitions = [(.newIndexer struct, body)] ∧
      body.Compares as fun a => if a.writable then [.setter struct a.key] else [] :=
  ⟨_, scriptFunction_definitions _ _,
    compares_of_branches rfl rfl (assignKey_called struct scriptName)⟩

end

/-! ## Fetching -/

/-- Calls that neither fetch a key nor are of a function of the file. -/
def Incidental (cs : List Call) : Prop := ∀ c ∈ cs, c.fetched? = none ∧ c.generated? = none

theorem Incidental.fetches {cs : List Call} (h : Incidental cs) (rest : List Call) :
    fetches (cs ++ rest) = fetches rest := by
  induction cs with
  | nil => rfl
  | cons c cs ih =>
    obtain ⟨⟨hc, -⟩, hcs⟩ := List.forall_mem_cons.mp h
    rw [List.cons_append, LuaGlue.fetches, hc]
    exact ih hcs

theorem Incidental.called {cs : List Call} (h : Incidental cs) : cs.filterMap Call.generated? = [] :=
  List.filterMap_eq_nil_iff.mpr fun c hc => (h c hc).2

/-- The calls that set a field from the table. -/
def initCalls (struct : String) (a : Accessor) : List Call := (initField struct a).flatMap Line.calls

theorem fetches_initCalls (struct : String) (a : Accessor) (rest : List Call) :
    fetches (initCalls struct a ++ rest) =
      (a.key, .setter struct a.key ::
        (rest.takeWhile (·.fetched?.isNone)).filterMap Call.generated?) :: fetches rest := rfl

/-- What is called for a key ends where the next one is fetched, or with calls that do not matter. -/
theorem fetches_init {struct : String} {after : List Call} (hafter : Incidental after)
    (as : List Accessor) : fetches (as.flatMap (initCalls struct) ++ after) =
      as.map fun a => (a.key, [.setter struct a.key]) := by
  have hend : fetches after = [] := by
    have h := hafter.fetches []
    rwa [List.append_nil] at h
  have hnext (as : List Accessor) : ((as.flatMap (initCalls struct) ++ after).takeWhile
      (·.fetched?.isNone)).filterMap Call.generated? = [] := by
    cases as with
    | nil =>
      refine List.filterMap_eq_nil_iff.mpr fun c hc => (hafter c ?_).2
      exact (List.takeWhile_sublist _).subset hc
    | cons a rest => rfl
  induction as with
  | nil => exact hend
  | cons a rest ih =>
    rw [List.flatMap_cons, List.append_assoc, fetches_initCalls, hnext, ih]
    rfl

/-- The calls of a constructor: what stands before the table is asked for, the fields, and what the bytes
of a string are taken by. -/
theorem constructorCode_calls (ctx : Context) (struct : String) (as : List Accessor)
    (range : Option ByteRange) : ∃ body before after,
      (constructorCode ctx struct as range).definitions = [(.constructor struct, body)] ∧
      Incidental before ∧ Incidental after ∧
      body.calls = before ++ ((as.filter (·.writable)).flatMap (initCalls struct) ++ after) := by
  let before : List Call :=
    [Api.newuserdata.on [.sizeof struct, .text "TETHER_UV_COUNT"], Api.gettop.on [],
      ⟨.libc "memset", [selfValue, .number 0, .sizeof struct]⟩,
      Api.setmetatable.on [.literal (ctx.metatable struct)], Api.isTable.on [.at (.slot 1)]]
  have hbefore : Incidental before := by simp [before, Incidental, Call.fetched?, Call.generated?, Api.on]
  have hfields : ((as.filter (·.writable)).flatMap (initField struct)).flatMap Line.calls =
      (as.filter (·.writable)).flatMap (initCalls struct) := List.flatMap_assoc
  cases range with
  | none =>
    refine ⟨_, before, [], scriptFunction_definitions _ _, hbefore, by simp [Incidental], ?_⟩
    simp [Code.seq, Code.ofLines, Code.branchOf, Code.calls, Line.calls, Expr.calls, Cond.calls,
      hfields, before]
  | some r =>
    refine ⟨_, before, [Api.on .type [.at (.slot 1)], Api.tolstring.on [.at (.slot 1), .address "len"],
      Support.anchor.on [udValue, .literal r.pointer, .at (.slot 1)]], scriptFunction_definitions _ _,
      hbefore, by simp [Incidental, Call.fetched?, Call.generated?, Api.on, Support.on], ?_⟩
    simp [Code.seq, Code.ofLines, Code.branchOf, Code.calls, Line.calls, Expr.calls, Cond.calls,
      hfields, before, takeBytes, declareLen, anchor]

/-- A function that fetches the keys of some accessors, and calls `calls a` for that of `a`. -/
structure Code.Fetches (keys : List Accessor) (calls : Accessor → List Symbol) (body : Code) : Prop where
  fetches : body.fetches = keys.map fun a => (a.key, calls a)
  called : body.called = keys.flatMap calls

theorem constructorCode_fetches (ctx : Context) (struct : String) (as : List Accessor)
    (range : Option ByteRange) :
    ∃ body, (constructorCode ctx struct as range).definitions = [(.constructor struct, body)] ∧
      body.Fetches (as.filter (·.writable)) fun a => [.setter struct a.key] := by
  obtain ⟨body, before, after, hdefinitions, hbefore, hafter, hcalls⟩ :=
    constructorCode_calls ctx struct as range
  refine ⟨body, hdefinitions, ?_, ?_⟩
  · rw [Code.fetches, hcalls, hbefore.fetches, fetches_init hafter]
  · rw [Code.called, hcalls, List.filterMap_append, List.filterMap_append, hbefore.called,
      hafter.called, List.nil_append, List.append_nil, List.filterMap_flatMap]
    rfl

/-! ## Names within a struct -/

/-- If putting `w` in front of a text that begins with `s` gives a text that begins with `s`, then what comes
after `s` there begins with `w` turned around at some place. -/
theorem rotation_prefix {w x y : List Char} (hw : w ≠ []) :
    ∀ {s : List Char}, s ++ x = w ++ (s ++ y) → ∃ n, n ≤ w.length ∧ w.drop n ++ w.take n <+: x := by
  intro s
  induction hlength : s.length using Nat.strongRecOn generalizing s with
  | ind length ih =>
    intro h
    rcases List.append_eq_append_iff.mp h with ⟨c, rfl, hx⟩ | ⟨c, rfl, hc⟩
    · -- `s` ends within `w`
      refine ⟨s.length, by simp, ?_⟩
      rw [hx, List.drop_left, List.take_left, ← List.append_assoc]
      exact List.prefix_append _ _
    · -- `w` comes off the front of `s`
      have hshorter : c.length < length := by
        rw [← hlength, List.length_append]
        exact Nat.lt_add_of_pos_left (List.length_pos_iff.mpr hw)
      rw [List.append_assoc] at hc
      exact ih c.length hshorter rfl hc.symm

/-- What stands between `tether_` and the name of a struct in the names made for it. -/
def structHeads : List String := ["to_", "call_", "trampoline_", "trampolines_", "fn_"]

/-- What stands after the name of a struct in the names of its getters and setters. -/
def accessorVerbs : List String := ["_get_", "_set_"]

/-- However a head is turned around, it does not begin as a verb does. -/
theorem heads_apart : ∀ head ∈ structHeads, 2 ≤ head.toList.length ∧
    ∀ n ≤ head.toList.length, ∀ verb ∈ accessorVerbs, 2 ≤ verb.toList.length ∧
      (head.toList.drop n ++ head.toList.take n).take 2 ≠ verb.toList.take 2 := by
  decide

theorem accessor_spelling {struct : String} {f : Symbol} (hf : f.isAccessor = true)
    (htag : f.tag? = some struct) : ∃ verb ∈ accessorVerbs, ∃ key : String,
      f.spelling.toList = "tether_".toList ++ (struct.toList ++ (verb.toList ++ key.toList)) := by
  have spelled (verb key : String) : ("tether_" ++ struct ++ verb ++ key).toList =
      "tether_".toList ++ (struct.toList ++ (verb.toList ++ key.toList)) := by
    simp only [String.toList_append, List.append_assoc]
  cases f <;> cases hf <;> cases htag
  · exact ⟨"_get_", List.mem_cons_self, _, spelled "_get_" _⟩
  · exact ⟨"_set_", List.mem_cons_of_mem _ List.mem_cons_self, _, spelled "_set_" _⟩

/-- How the other functions of a struct are spelled. -/
theorem other_spelling {struct : String} {as : List Accessor} {f : Symbol}
    (hf : f ∈ structDefined struct as) (hother : f.isAccessor = false) :
    "l_".toList <+: f.spelling.toList ∨ ∃ head ∈ structHeads, ∃ tail : List Char,
      f.spelling.toList = "tether_".toList ++ (head.toList ++ (struct.toList ++ tail)) := by
  have headed {name : String} (head rest : String) (hhead : head ∈ structHeads)
      (hname : name = "tether_" ++ head ++ struct ++ rest) : ∃ head ∈ structHeads, ∃ tail : List Char,
        name.toList = "tether_".toList ++ (head.toList ++ (struct.toList ++ tail)) :=
    ⟨head, hhead, rest.toList, by rw [hname]; simp only [String.toList_append, List.append_assoc]⟩
  have library {ending : String} : "l_".toList <+: ("l_" ++ struct ++ ending).toList := by
    rw [String.append_assoc, String.toList_append]
    exact List.prefix_append _ _
  rcases mem_structDefined.mp hf with ⟨a, -, -, hpool⟩ | ⟨a, -, haccessor⟩ | hwhole
  · refine .inr ?_
    rcases mem_poolDefined.mp hpool with rfl | ⟨entry, -, rfl⟩ | rfl | rfl
    · exact headed "call_" ("_" ++ a.key) (by decide) (String.append_assoc ..)
    · refine headed "trampoline_" ("_" ++ (a.key ++ ("_" ++ toString entry))) (by decide) ?_
      rw [← String.append_assoc, ← String.append_assoc, ← String.append_assoc]
      rfl
    · exact headed "fn_" ("_" ++ a.key) (by decide) (String.append_assoc ..)
    · exact headed "trampolines_" ("_" ++ a.key) (by decide) (String.append_assoc ..)
  · rcases mem_accessorDefined.mp haccessor with ⟨-, rfl⟩ | ⟨-, rfl⟩ <;> cases hother
  · rcases mem_wholeDefined.mp hwhole with rfl | rfl | rfl | rfl | ⟨-, rfl⟩
    · exact .inl library
    · exact .inr (headed "to_" "" (by decide) String.append_empty.symm)
    · exact .inl library
    · exact .inl library
    · exact .inl library

/-- **A getter or a setter has its name for itself** among the functions of its struct. -/
theorem accessor_spelling_inj {struct : String} {as : List Accessor} {f g : Symbol}
    (hf : f ∈ structDefined struct as) (hg : g ∈ structDefined struct as) (haccessor : g.isAccessor = true)
    (h : f.spelling = g.spelling) : f = g := by
  have hftag := structDefined_tag hf
  have hgtag := structDefined_tag hg
  cases hother : f.isAccessor with
  | true =>
    have getter_ne_setter {key key' : String} :
        "tether_" ++ struct ++ "_get_" ++ key ≠ "tether_" ++ struct ++ "_set_" ++ key' := by
      intro heq
      simp only [String.append_assoc, String.append_right_inj] at heq
      exact absurd (congrArg (fun s => s.toList.take 2) heq) (by simp [String.toList_append])
    cases f <;> cases hother <;> cases hftag <;> cases g <;> cases haccessor <;> cases hgtag
    · rw [(String.append_right_inj _).mp h]
    · exact absurd h getter_ne_setter
    · exact absurd h.symm getter_ne_setter
    · rw [(String.append_right_inj _).mp h]
  | false =>
    obtain ⟨verb, hverb, key, hspelling⟩ := accessor_spelling haccessor hgtag
    have hlist := congrArg String.toList h
    rw [hspelling] at hlist
    rcases other_spelling hf hother with hprefix | ⟨head, hhead, tail, hspelling'⟩
    · obtain ⟨rest, hrest⟩ := hprefix
      rw [hlist] at hrest
      exact absurd (List.cons.inj hrest).1 (by decide)
    · rw [hspelling', List.append_cancel_left_eq] at hlist
      obtain ⟨hlong, hapart⟩ := heads_apart head hhead
      have hnonempty : head.toList ≠ [] := List.ne_nil_of_length_pos (by omega)
      obtain ⟨n, hn, rest, hrest⟩ := rotation_prefix hnonempty hlist.symm
      obtain ⟨hverbLong, hne⟩ := hapart n hn verb hverb
      have htwo := congrArg (List.take 2) hrest
      rw [List.take_append_of_le_length (by simp; omega), List.take_append_of_le_length hverbLong] at htwo
      exact absurd htwo hne

/-! ## What is defined -/

/-- Accessors with different keys have different getters and setters. -/
theorem accessorsDefined_nodup {struct : String} {as : List Accessor} (h : (as.map (·.key)).Nodup) :
    (as.flatMap (Accessor.defined struct)).Nodup := by
  rw [List.nodup_flatMap]
  constructor
  · intro a _
    unfold Accessor.defined
    cases a.readable <;> cases a.writable <;> simp
  · refine (List.pairwise_map.mp h).imp fun hkey x hx hx' => ?_
    rcases mem_accessorDefined.mp hx with ⟨-, rfl⟩ | ⟨-, rfl⟩ <;>
      rcases mem_accessorDefined.mp hx' with ⟨-, heq⟩ | ⟨-, heq⟩ <;>
      exact absurd heq (by simp [hkey])

/-- The getters and setters that are written are those of the accessors. -/
theorem fieldCode_definitions {ctx : Context} {struct : String} :
    ∀ {as : List Accessor} {s s' : Scratch} {u : Unit} {code : Code},
      fieldCode ctx struct as s = (.written u code, s') →
      code.definitions.map (·.1) = as.flatMap (Accessor.defined struct) := by
  intro as
  induction as with
  | nil =>
    intro s s' u code h
    obtain ⟨-, rfl, -⟩ := Draft.pure_written.mp h
    rfl
  | cons a rest ih =>
    intro s s' u code h
    unfold fieldCode at h
    rw [List.flatMap_cons, Accessor.defined, List.append_assoc]
    have setting {t : Scratch} {code : Code} (h : (do
        if a.writable then setter ctx struct a
        fieldCode ctx struct rest) t = (.written u code, s')) :
        code.definitions.map (·.1) = (if a.writable then [.setter struct a.key] else []) ++
          rest.flatMap (Accessor.defined struct) := by
      cases hw : a.writable with
      | true =>
        rw [hw] at h
        obtain ⟨_, _, _, _, hset, hrest, rfl⟩ := Draft.bind_written.mp h
        obtain ⟨body, -, rfl⟩ := setter_written hset
        rw [Code.definitions_append, List.map_append, ih hrest]
        rfl
      | false =>
        rw [hw] at h
        exact ih h
    cases hr : a.readable with
    | true =>
      rw [hr] at h
      obtain ⟨_, _, _, _, hget, hrest, rfl⟩ := Draft.bind_written.mp h
      obtain ⟨body, rfl⟩ := getter_written hget
      rw [Code.definitions_append, List.map_append, setting hrest]
      rfl
    | false =>
      rw [hr] at h
      exact setting h

/-- The text defines a function, once, and nothing else by its name. -/
structure Code.DefinesOnce (code : Code) (f : Symbol) : Prop where
  body : ∃ body, code.bodies f = [body]
  name : (code.defined.map Symbol.spelling).count f.spelling = 1

/-- What the three functions of a struct that go by keys do, for the accessors of the struct. -/
structure GoesByKeys (struct : String) (as : List Accessor) (code : Code) : Prop where
  index : ∃ body, code.bodies (.indexer struct) = [body] ∧
    body.Compares (as.filter (·.readable)) fun a => [.getter struct a.key]
  newIndex : ∃ body, code.bodies (.newIndexer struct) = [body] ∧
    body.Compares as fun a => if a.writable then [.setter struct a.key] else []
  new : ∃ body, code.bodies (.constructor struct) = [body] ∧
    body.Fetches (as.filter (·.writable)) fun a => [.setter struct a.key]
  once : ∀ f ∈ [Symbol.indexer struct, .newIndexer struct, .constructor struct],
    ∀ body ∈ code.bodies f, ∀ g ∈ body.called, code.DefinesOnce g

/-- A name that no other symbol has is spelled once. -/
theorem count_spelling {fs : List Symbol} {g : Symbol} (hfs : fs.Nodup) (hg : g ∈ fs)
    (hown : ∀ f ∈ fs, f.spelling = g.spelling → f = g) :
    (fs.map Symbol.spelling).count g.spelling = 1 := by
  have hsame : fs.countP (fun f => f.spelling == g.spelling) = fs.count g := by
    refine List.countP_congr fun f hf => ?_
    simp only [beq_iff_eq]
    exact ⟨hown f hf, fun heq => by rw [heq]⟩
  rw [List.count, List.countP_map]
  exact hsame.trans (List.count_eq_one_of_mem hfs hg)

section

variable {ctx : Context} {s : StructDecl} {t t' : Scratch} {binding : StructBinding} {code : Code}

theorem bindStruct_defined (h : bindStruct ctx s t = (.written binding code, t')) {as : List Accessor}
    (has : ((accessors ctx s).run t.memo).1 = .ok as) : code.defined = structDefined s.name as := by
  obtain ⟨fields, hfields, houtlined, -, -⟩ := bindStruct_outlined h
  obtain rfl : fields = as := Except.ok.inj (hfields.symm.trans has)
  exact houtlined.defined_eq.trans (structOutline_defined s.name fields)

/-- What a part of the text defines is the text's own, if nothing is defined twice. -/
theorem bindStruct_bodies (h : bindStruct ctx s t = (.written binding code, t')) {as : List Accessor}
    (has : ((accessors ctx s).run t.memo).1 = .ok as) (hkeys : (as.map (·.key)).Nodup) :
    (∀ g ∈ as.flatMap (Accessor.defined s.name), ∃ body, code.bodies g = [body]) ∧
      ∃ range, ∀ f body, (f, body) ∈ (wholeCode ctx s.name as range).definitions →
        code.bodies f = [body] := by
  have hnodup : code.defined.Nodup := by
    rw [bindStruct_defined h has]
    exact structDefined_nodup (accessorsDefined_nodup hkeys)
  obtain ⟨fields, range, pools, glue, _, _, hfields, -, -, hglue, -, hcode, -⟩ := bindStruct_parts h
  obtain rfl : fields = as := Except.ok.inj (hfields.symm.trans has)
  have hdefinitions : code.definitions = pools.definitions ++ (glue.definitions ++
      (wholeCode ctx s.name fields range).definitions) := by
    rw [hcode, Code.definitions_append, Code.definitions_append]
  refine ⟨fun g hg => ?_, range, fun f body hbody => ?_⟩
  · rw [← fieldCode_definitions hglue] at hg
    obtain ⟨⟨g, body⟩, hbody, rfl⟩ := List.mem_map.mp hg
    refine ⟨body, Code.bodies_eq hnodup ?_⟩
    rw [hdefinitions]
    exact List.mem_append_right _ (List.mem_append_left _ hbody)
  · refine Code.bodies_eq hnodup ?_
    rw [hdefinitions]
    exact List.mem_append_right _ (List.mem_append_right _ hbody)

/-- Every getter and setter of the accessors is defined once. -/
theorem bindStruct_definesOnce (h : bindStruct ctx s t = (.written binding code, t'))
    {as : List Accessor} (has : ((accessors ctx s).run t.memo).1 = .ok as)
    (hkeys : (as.map (·.key)).Nodup) {g : Symbol} (hg : g ∈ as.flatMap (Accessor.defined s.name)) :
    code.DefinesOnce g where
  body := (bindStruct_bodies h has hkeys).1 g hg
  name := by
    have hmem : g ∈ structDefined s.name as := List.mem_append_right _ (List.mem_append_left _ hg)
    have haccessor : g.isAccessor = true := by
      obtain ⟨a, -, hg⟩ := List.mem_flatMap.mp hg
      rcases mem_accessorDefined.mp hg with ⟨-, rfl⟩ | ⟨-, rfl⟩ <;> rfl
    rw [bindStruct_defined h has]
    exact count_spelling (structDefined_nodup (accessorsDefined_nodup hkeys)) hmem fun f hf heq =>
      accessor_spelling_inj hf hmem haccessor heq

theorem bindStruct_goesByKeys (h : bindStruct ctx s t = (.written binding code, t'))
    {as : List Accessor} (has : ((accessors ctx s).run t.memo).1 = .ok as)
    (hkeys : (as.map (·.key)).Nodup) : GoesByKeys s.name as code := by
  obtain ⟨range, hwhole⟩ := (bindStruct_bodies h has hkeys).2
  have whole {c : Code} {f : Symbol} {body : Code} (hc : c.definitions = [(f, body)])
      (hmem : c ∈ [constructorCode ctx s.name as range, converterCode ctx s.name range,
        indexCode ctx s.name as, newIndexCode ctx s.name (ctx.naming.typeName s.name) as]) :
      code.bodies f = [body] := by
    refine hwhole f body ?_
    rw [wholeCode, Code.definitions_seq]
    refine List.mem_flatMap.mpr ⟨c, List.mem_append_left _ hmem, ?_⟩
    rw [hc]
    exact List.mem_singleton_self _
  obtain ⟨indexBody, hindex, hindexKeys⟩ := indexCode_compares ctx s.name as
  obtain ⟨newIndexBody, hnewIndex, hnewIndexKeys⟩ :=
    newIndexCode_compares ctx s.name as (ctx.naming.typeName s.name)
  obtain ⟨newBody, hnew, hnewKeys⟩ := constructorCode_fetches ctx s.name as range
  have hindex := whole hindex (by simp)
  have hnewIndex := whole hnewIndex (by simp)
  have hnew := whole hnew (by simp)
  -- what is called is the getter or the setter of an accessor
  have getter {a : Accessor} (ha : a ∈ as) (hreadable : a.readable = true) :
      code.DefinesOnce (.getter s.name a.key) :=
    bindStruct_definesOnce h has hkeys
      (List.mem_flatMap.mpr ⟨a, ha, mem_accessorDefined.mpr (.inl ⟨hreadable, rfl⟩)⟩)
  have setter {a : Accessor} (ha : a ∈ as) (hwritable : a.writable = true) :
      code.DefinesOnce (.setter s.name a.key) :=
    bindStruct_definesOnce h has hkeys
      (List.mem_flatMap.mpr ⟨a, ha, mem_accessorDefined.mpr (.inr ⟨hwritable, rfl⟩)⟩)
  refine ⟨⟨_, hindex, hindexKeys⟩, ⟨_, hnewIndex, hnewIndexKeys⟩, ⟨_, hnew, hnewKeys⟩, ?_⟩
  intro f hf body hbody g hg
  simp only [List.mem_cons, List.not_mem_nil, or_false] at hf
  rcases hf with rfl | rfl | rfl
  · rw [hindex, List.mem_singleton] at hbody
    rw [hbody, hindexKeys.called] at hg
    obtain ⟨a, ha, hg⟩ := List.mem_flatMap.mp hg
    rw [List.mem_singleton.mp hg]
    exact getter (List.mem_of_mem_filter ha) (List.mem_filter.mp ha).2
  · rw [hnewIndex, List.mem_singleton] at hbody
    rw [hbody, hnewIndexKeys.called] at hg
    obtain ⟨a, ha, hg⟩ := List.mem_flatMap.mp hg
    split at hg
    · rw [List.mem_singleton.mp hg]
      exact setter ha ‹_›
    · exact absurd hg List.not_mem_nil
  · rw [hnew, List.mem_singleton] at hbody
    rw [hbody, hnewKeys.called] at hg
    obtain ⟨a, ha, hg⟩ := List.mem_flatMap.mp hg
    rw [List.mem_singleton.mp hg]
    exact setter (List.mem_of_mem_filter ha) (List.mem_filter.mp ha).2

/-- **What a struct dispatches on.** A struct whose fields have different names has one list of accessors,
in which no key is given twice: each field that is no variadic callback under its own name, in the order of
declaration, and directly after it the members that it is opened into, under names that no field and no
earlier member has. The three functions that go by keys follow this list: `__index` compares with the keys
that are no callbacks, `__newindex` with all, and the constructor fetches those that are no counts. Every
getter and setter that they call is defined in the text, once. -/
theorem struct_dispatches (h : bindStruct ctx s t = (.written binding code, t'))
    (hnames : (s.fields.map (·.name)).Nodup) :
    ∃ entries : List FieldEntry,
      Listing ctx t'.memo s (s.fields.map (·.name)) s.fields entries ∧
      ((entries.flatMap FieldEntry.accessors).map (·.key)).Nodup ∧
      binding.fields.map (·.key) = (entries.flatMap FieldEntry.accessors).map (·.key) ∧
      GoesByKeys s.name (entries.flatMap FieldEntry.accessors) code := by
  obtain ⟨as, _, _, _, _, _, has, -, -, -, -, -, describes⟩ := bindStruct_parts h
  have hrun : (accessors ctx s).run t.memo = (.ok as, ((accessors ctx s).run t.memo).2) :=
    Prod.ext has rfl
  have hgrows := bindStruct_grows_listed ctx s t
  rw [h] at hgrows
  have hkeys := accessors_keys_nodup hrun hnames
  obtain ⟨entries, rfl, listed⟩ := accessors_listed hrun hgrows
  exact ⟨entries, listed, hkeys, describes.keys, bindStruct_goesByKeys h has hkeys⟩

end

/-! ## A struct with fields of every sort -/

/-- The struct that is opened: of its members one is named like a field of the outer struct, and one is
a callback. -/
def baseStruct : StructDecl :=
  ⟨"Base", [⟨"tag", "int"⟩, ⟨"gain", "float"⟩, ⟨"hook", "void (*)(int)"⟩], []⟩

/-- A flattened field, a plain one, an owned buffer with its count, a callback and a variadic one. -/
def deviceStruct : StructDecl :=
  ⟨"Device", [⟨"base", "Base"⟩, ⟨"gain", "float"⟩, ⟨"data", "int*"⟩, ⟨"count", "int"⟩,
    ⟨"done", "void (*)(int)"⟩, ⟨"log", "void (*)(const char*, ...)"⟩], [⟨"data", "count"⟩]⟩

def deviceContext : Context :=
  Classifying.fresh (Context.build { decls := [.struct baseStruct, .struct deviceStruct] }
    { types := { flattened := ["Device.base"] } })

/-- The member that is named like a field is left out, and so are the variadic callback and the callback
in the struct that is opened. -/
theorem struct_dispatches_device : ∃ binding code t',
    bindStruct deviceContext deviceStruct {} = (.written binding code, t') ∧
      (deviceStruct.fields.map (·.name)).Nodup ∧
      binding.fields.map (·.key) = ["base", "tag", "gain", "data", "count", "done"] ∧
      ∃ entries : List FieldEntry,
        Listing deviceContext t'.memo deviceStruct (deviceStruct.fields.map (·.name))
          deviceStruct.fields entries ∧
        GoesByKeys "Device" (entries.flatMap FieldEntry.accessors) code := by
  obtain ⟨binding, code, t', h, htest⟩ := Draft.exists_written (bindStruct deviceContext deviceStruct) {}
    (fun code => (code.bodies (.newIndexer "Device")).map (fun body => body.dispatch.map (·.1)) ==
      [["base", "tag", "gain", "data", "count", "done"]]) (by decide +kernel)
  have hnames : (deviceStruct.fields.map (·.name)).Nodup := by decide
  obtain ⟨entries, listed, -, hkeys, goes⟩ := struct_dispatches h hnames
  refine ⟨binding, code, t', h, hnames, ?_, entries, listed, goes⟩
  obtain ⟨body, hbody, compares⟩ := goes.newIndex
  rw [show deviceStruct.name = "Device" from rfl] at hbody
  rw [hbody, List.map_singleton, compares.dispatch, List.map_map] at htest
  rw [hkeys]
  exact List.singleton_inj.mp (eq_of_beq htest)

end LuaGlue
