import LuaGlue.Proofs.Callback.DispatcherCode
import LuaGlue.Proofs.Marshal.Positions
import LuaGlue.Proofs.Userdata.Anchors

/-!
# What a text does with memory and with the struct

The *deeds* of a text are, in its order, what it does with memory (`free`, `allocate`), with the mask of
the buffers that a struct owns (`disown`, `record`), with the struct that a getter or a setter works on
(`assign`, `fill`), and with the elements of the value that a field is set to (`fetch`). Each stands at
a *site*: the function it is in, and the conditions that it is done under.

Everything else that a line may do is no deed. Most code has none: pushing a value has not
(`Pushes.idle`), and reading one into a place only fills the field that the place is a part of
(`Reads.deeds`).
-/

set_option autoImplicit false

namespace LuaGlue

/-! ## Deeds -/

/-- The field of the struct that a place is, or is a part of, by the path to it. -/
def Place.selfPath? : Place → Option String
  | through base path => if base == "self" then some path else none
  | element p _ | member p _ | memberOf p _ => p.selfPath?
  | name _ | target _ => none

@[simp] theorem Place.selfPath?_through (path : String) : (through "self" path).selfPath? = some path :=
  rfl

inductive Deed where
  /-- Memory is freed. -/
  | free (args : List Arg)
  | allocate
  /-- A buffer is taken out of the mask. -/
  | disown (bit : Nat)
  /-- A mask is recorded in a userdata. -/
  | record (args : List Arg)
  /-- A field, or a part of it, is assigned. -/
  | assign (path : String) (e : Expr)
  /-- The address of a field, or of a part of it, is passed on. -/
  | fill (path : String)
  /-- An element of the value is fetched. -/
  | fetch
  deriving DecidableEq, Repr

namespace Deed

def isFree : Deed → Bool
  | free _ => true
  | _ => false

/-- The field that is written. -/
def path? : Deed → Option String
  | assign path _ | fill path => some path
  | _ => none

end Deed

/-- Where something is done. -/
structure Site where
  function : Option Symbol := none
  /-- The conditions that have been found to hold, the last one first. -/
  guards : List Cond := []
  deriving DecidableEq, Repr

namespace Site

def under (site : Site) (c : Cond) : Site := { site with guards := c :: site.guards }

/-- Inside a block, which may be a function's; no function is inside another one. -/
def inside (site : Site) : Head → Site
  | .define _ f _ => { site with function := site.function.or (some f) }
  | _ => site

end Site

/-- The field whose address an argument is. -/
def Arg.filled? : Arg → Option Deed
  | addressOf p => p.selfPath?.map .fill
  | _ => none

def Call.deeds (c : Call) : List Deed :=
  match c.callee with
  | .libc name =>
    if name == "free" then [.free c.args]
    else if name == "malloc" then [.allocate]
    else []
  | .support .setOwned => [.record c.args]
  | .api .rawgeti => if c.args.contains (.at valueIndex) then [.fetch] else []
  | _ => c.args.filterMap Arg.filled?

def Line.deeds (site : Site) : Line → List (Site × Deed)
  | call c | discard c => c.deeds.map (site, ·)
  | assign p e =>
    (e.calls.flatMap Call.deeds ++ (p.selfPath?.map fun path => Deed.assign path e).toList).map (site, ·)
  | declare _ e | ret e => (e.calls.flatMap Call.deeds).map (site, ·)
  | onlyIf c l => (c.calls.flatMap Call.deeds).map (site, ·) ++ l.deeds (site.under c)
  | disown bit => [(site, .disown bit)]
  | unused _ | retVoid | prototype .. | functionType .. | item _ | registration .. | placeholder _
  | directive _ | blank | text _ => []

theorem Site.of_mem_map {site : Site} {ds : List Deed} {d : Site × Deed} (hd : d ∈ ds.map (site, ·)) :
    d.1 = site := by
  obtain ⟨deed, -, rfl⟩ := List.mem_map.mp hd
  rfl

theorem Line.deeds_function {l : Line} {site : Site} {f : Symbol} (hsite : site.function = some f) :
    ∀ d ∈ l.deeds site, d.1.function = some f := by
  induction l generalizing site with
  | call c | discard c | assign p e | declare x e | ret e =>
    exact fun _ hd => Site.of_mem_map hd ▸ hsite
  | onlyIf c l ih =>
    intro d hd
    rcases List.mem_append.mp hd with hd | hd
    · exact Site.of_mem_map hd ▸ hsite
    · exact @ih (site.under c) hsite d hd
  | disown bit => simpa [Line.deeds] using hsite
  | _ => simp [Line.deeds]

namespace Code

/-- The deeds of code, in the order of the text. -/
def deeds (site : Site) : Code → List (Site × Deed)
  | done => []
  | line l next => l.deeds site ++ next.deeds site
  | block head body _ next => body.deeds (site.inside head) ++ next.deeds site
  | branch c yes no next =>
    (c.calls.flatMap Call.deeds).map (site, ·) ++
      (yes.deeds (site.under c) ++ (no.deeds site ++ next.deeds site))

variable {site : Site}

@[simp] theorem deeds_append (a b : Code) : (a ++ b).deeds site = a.deeds site ++ b.deeds site := by
  induction a generalizing site with
  | done => rfl
  | line l next ih => simp [deeds, ih]
  | block head body ending next _ ih => simp [deeds, ih]
  | branch c yes no next _ _ ih => simp [deeds, ih]

@[simp] theorem deeds_ofLines (ls : List Line) :
    (ofLines ls).deeds site = ls.flatMap (Line.deeds site) := by
  induction ls with
  | nil => rfl
  | cons l rest ih => rw [ofLines, deeds, ih, List.flatMap_cons]

@[simp] theorem deeds_seq (cs : List Code) : (seq cs).deeds site = cs.flatMap (deeds site) := by
  induction cs with
  | nil => rfl
  | cons c rest ih => rw [seq, deeds_append, ih, List.flatMap_cons]

end Code

/-! ## Deeds of one kind -/

namespace Code

/-- Every deed of the code, wherever it stands, is of a kind. -/
def DeedsIn (P : Deed → Prop) (code : Code) : Prop := ∀ site, ∀ d ∈ code.deeds site, P d.2

namespace DeedsIn

variable {P Q : Deed → Prop} {a b next yes no : Code}

theorem mono (h : a.DeedsIn P) (hPQ : ∀ d, P d → Q d) : a.DeedsIn Q :=
  fun site d hd => hPQ d.2 (h site d hd)

theorem done : Code.done.DeedsIn P := fun _ _ hd => absurd hd List.not_mem_nil

theorem append (ha : a.DeedsIn P) (hb : b.DeedsIn P) : (a ++ b).DeedsIn P := by
  intro site d hd
  rw [deeds_append] at hd
  exact (List.mem_append.mp hd).elim (ha site d) (hb site d)

theorem line {l : Line} (hl : ∀ site, ∀ d ∈ l.deeds site, P d.2) (hn : next.DeedsIn P) :
    (Code.line l next).DeedsIn P :=
  fun site d hd => (List.mem_append.mp hd).elim (hl site d) (hn site d)

theorem ofLines {ls : List Line} (h : ∀ l ∈ ls, ∀ site, ∀ d ∈ l.deeds site, P d.2) :
    (Code.ofLines ls).DeedsIn P := by
  intro site d hd
  rw [deeds_ofLines] at hd
  obtain ⟨l, hl, hd⟩ := List.mem_flatMap.mp hd
  exact h l hl site d hd

theorem idleLine {l : Line} (hl : ∀ site, l.deeds site = []) (hn : next.DeedsIn P) :
    (Code.line l next).DeedsIn P :=
  line (fun site _ hd => absurd hd (hl site ▸ List.not_mem_nil)) hn

theorem idleLines {ls : List Line} (h : ∀ l ∈ ls, ∀ site, l.deeds site = []) :
    (Code.ofLines ls).DeedsIn P :=
  ofLines fun l hl site _ hd => absurd hd (h l hl site ▸ List.not_mem_nil)

theorem seq {cs : List Code} (h : ∀ c ∈ cs, c.DeedsIn P) : (Code.seq cs).DeedsIn P := by
  intro site d hd
  rw [deeds_seq] at hd
  obtain ⟨c, hc, hd⟩ := List.mem_flatMap.mp hd
  exact h c hc site d hd

theorem block {head : Head} {ending : Ending} (hb : a.DeedsIn P) (hn : next.DeedsIn P) :
    (Code.block head a ending next).DeedsIn P :=
  fun site d hd => (List.mem_append.mp hd).elim (hb _ d) (hn site d)

theorem branch {c : Cond} (hc : c.calls.flatMap Call.deeds = []) (hy : yes.DeedsIn P)
    (ho : no.DeedsIn P) (hn : next.DeedsIn P) : (Code.branch c yes no next).DeedsIn P := by
  intro site d hd
  rw [deeds, hc, List.map_nil, List.nil_append] at hd
  rcases List.mem_append.mp hd with hd | hd
  · exact hy _ d hd
  · exact (List.mem_append.mp hd).elim (ho site d) (hn site d)

end DeedsIn

/-- Code without deeds. -/
def Idle (code : Code) : Prop := code.DeedsIn fun _ => False

theorem Idle.deeds_eq {code : Code} (h : code.Idle) (site : Site) : code.deeds site = [] :=
  List.eq_nil_iff_forall_not_mem.mpr fun d hd => h site d hd

/-- Whatever is done inside a function is done there. -/
theorem deeds_function {code : Code} {site : Site} {f : Symbol} (hsite : site.function = some f) :
    ∀ d ∈ code.deeds site, d.1.function = some f := by
  induction code generalizing site with
  | done => exact fun d hd => absurd hd List.not_mem_nil
  | line l next ih =>
    exact fun d hd => (List.mem_append.mp hd).elim (Line.deeds_function hsite d) (ih hsite d)
  | block head body ending next ih ih' =>
    have hinside : (site.inside head).function = some f := by
      cases head <;> simp [Site.inside, hsite]
    exact fun d hd => (List.mem_append.mp hd).elim (ih hinside d) (ih' hsite d)
  | branch c yes no next ih ih' ih'' =>
    intro d hd
    rcases List.mem_append.mp hd with hd | hd
    · exact Site.of_mem_map hd ▸ hsite
    · rcases List.mem_append.mp hd with hd | hd
      · exact @ih (site.under c) hsite d hd
      · exact (List.mem_append.mp hd).elim (ih' hsite d) (ih'' hsite d)

end Code

/-! ## Pushing -/

section

variable {ctx : Context} {m : Memo}

theorem pushLines?_idle {spelling : String} {source : Place} {c : Category} {ls : List Line}
    (hl : pushLines? spelling source c = some ls) : (Code.ofLines ls).Idle := by
  unfold pushLines? at hl
  split at hl <;> cases hl <;>
    exact .idleLines (by simp [Line.deeds, pushNil, Api.on, Call.deeds, Arg.filled?])

theorem copyCode_idle (ctx : Context) (name : String) (source : Place) (copy : String) :
    (copyCode ctx name source copy).Idle :=
  .block (.idleLines (by
    simp [Line.deeds, Expr.calls, Api.on, Call.deeds, Arg.filled?, Place.selfPath?])) .done

theorem unlessNullCode_idle {some : Code} (h : some.Idle) (ctx : Context) (pointer : Local)
    {source : Expr} (hs : source.calls = []) : (unlessNullCode ctx pointer source some).Idle :=
  .block (.idleLine (by simp [Line.deeds, hs])
    (.branch rfl h (.idleLine (fun _ => rfl) .done) .done)) .done

/-- **Pushing a value does nothing else.** -/
theorem Pushes.idle {job : PushJob} {n n' : Nat} {code : Code} (h : Pushes ctx m job n code n') :
    code.Idle := by
  induction h with
  | direct _ hl => exact pushLines?_idle hl
  | copy _ _ => exact copyCode_idle _ _ _ _
  | pointerTuple _ _ ih => exact unlessNullCode_idle ih _ _ rfl
  | pointerCopy _ _ => exact unlessNullCode_idle (copyCode_idle _ _ _ _) _ _ rfl
  | pointerLight _ _ | rawPointer _ _ =>
    exact unlessNullCode_idle (.idleLine (fun _ => rfl) .done) _ _ rfl
  | array _ _ _ ih =>
    exact .idleLine (fun _ => rfl) (.block (.append ih (.idleLine (fun _ => rfl) .done)) .done)
  | tupleValue _ _ ih => exact ih
  | tuple _ _ ih => exact .block (.idleLine (fun _ => rfl) (.idleLine (fun _ => rfl) ih)) .done
  | nil => exact .done
  | cons _ _ ih ih' => exact .append ih (.idleLine (fun _ => rfl) ih')

/-! ## Reading -/

/-- A deed that writes the field at a path, or none if there is no path. -/
def Deed.Writes (path? : Option String) (d : Deed) : Prop := ∃ p, path? = some p ∧ d.path? = some p

theorem temporary_ne_value (n : Nat) : temporary n ≠ "value" := by
  intro h
  have hhead := congrArg (fun s : String => s.toList.head?) h
  simp [temporary, String.toList_append] at hhead

/-- An assignment of what calls without deeds give. -/
theorem assign_writes {p : Place} {e : Expr} (he : e.calls.flatMap Call.deeds = []) :
    ∀ site, ∀ d ∈ (Line.assign p e).deeds site, d.2.Writes p.selfPath? := by
  intro site d hd
  rw [Line.deeds, he, List.nil_append] at hd
  cases hp : p.selfPath? with
  | none => simp [hp] at hd
  | some path =>
    obtain rfl : d = (site, .assign path e) := by simpa [hp] using hd
    exact ⟨path, rfl, rfl⟩

variable {mode : ReadMode} {spelling : String} {place : Place} {index : StackIndex}

theorem readLine?_deeds {c : Category} {l : Line}
    (hl : readLine? ctx mode spelling place index c = some l) :
    ∀ site, ∀ d ∈ l.deeds site, d.2.Writes place.selfPath? := by
  unfold readLine? at hl
  split at hl <;> cases hl
  iterate 5 exact assign_writes (by cases mode <;> rfl)
  · split <;> exact assign_writes rfl
  iterate 2 unfold readPointer; split <;> exact assign_writes rfl
  iterate 2 exact fun site d hd => absurd hd List.not_mem_nil

theorem readBound_deeds (name : String) :
    ∀ site, ∀ d ∈ (readBound ctx name place index mode).deeds site, d.2.Writes place.selfPath? := by
  intro site d hd
  have hfill : (readBound ctx name place index mode).deeds site =
      (place.selfPath?.map Deed.fill).toList.map (site, ·) := by
    cases mode <;> cases hp : place.selfPath? <;>
      simp [readBound, Line.deeds, Cond.calls, Call.deeds, Api.on, List.filterMap_cons, Arg.filled?, hp]
  rw [hfill] at hd
  cases hp : place.selfPath? with
  | none => simp [hp] at hd
  | some path =>
    obtain rfl : d = (site, .fill path) := by simpa [hp] using hd
    exact ⟨path, rfl, rfl⟩

theorem copyUserdata_deeds (name pointer : String) :
    (Code.ofLines (copyUserdata ctx name place index mode pointer)).DeedsIn
      (Deed.Writes place.selfPath?) :=
  .idleLine (by cases mode <;> exact fun _ => rfl)
    (.line (fun _ d hd => assign_writes rfl _ d hd) .done)

theorem rangeCode_deeds (name : String) (range : ByteRange) (pointer length : String) :
    (rangeCode ctx name range place index mode pointer length).DeedsIn
      (Deed.Writes place.selfPath?) :=
  .block (.branch rfl (.idleLine (fun _ => rfl) (.line (assign_writes rfl)
    (.line (assign_writes rfl) .done))) (copyUserdata_deeds _ _) .done) .done

theorem tableCode_deeds {P : Deed → Prop} {inside : Code} (h : inside.DeedsIn P) (table : String) :
    (tableCode mode table index inside).DeedsIn P := by
  refine .block (.idleLine (fun _ => rfl) ?_) .done
  cases mode with
  | checked => exact .idleLine (fun _ => rfl) h
  | lenient => exact .branch rfl h .done .done

/-- Fetching an entry of another table. -/
theorem rawgeti_idle {table : String} (ht : table ≠ "value") {k : Arg} (hk : ∀ i, k ≠ .at i)
    (site : Site) : (Line.call (Api.rawgeti.on [.at (.held table), k])).deeds site = [] := by
  simp [Line.deeds, Call.deeds, Api.on, valueIndex, Ne.symm ht, Ne.symm (hk _)]

/-- The table whose entries a job goes through. -/
def ReadJob.table? : ReadJob → Option String
  | .members table .. => some table
  | .value .. | .tuple .. => none

/-- **Reading a value writes the field that it is put into**, and does nothing else. -/
theorem Reads.deeds {job : ReadJob} {n n' : Nat} {code : Code} (h : Reads ctx m job n code n') :
    job.table? ≠ some "value" → code.DeedsIn (Deed.Writes job.place.selfPath?) := by
  induction h with
  | oneLine _ hl => exact fun _ => .line (readLine?_deeds hl) .done
  | bound _ _ _ => exact fun _ => .line (readBound_deeds _) .done
  | foreign _ _ _ _ => exact fun _ => .block (copyUserdata_deeds _ _) .done
  | foreignRange _ _ _ _ => exact fun _ => rangeCode_deeds _ _ _ _
  | array _ _ _ ih =>
    exact fun _ => tableCode_deeds (.block (.idleLine (rawgeti_idle (temporary_ne_value _) (by simp))
      (.branch rfl (ih (by simp [ReadJob.table?])) .done (.idleLine (fun _ => rfl) .done))) .done) _
  | tupleValue _ _ ih => exact fun _ => ih (by simp [ReadJob.table?])
  | tuple _ _ ih =>
    exact fun _ => tableCode_deeds (ih (by simp [ReadJob.table?, temporary_ne_value])) _
  | nil => exact fun _ => .done
  | cons _ _ ih ih' =>
    intro ht
    have htable := fun heq => ht (congrArg some heq)
    exact .append (.idleLine (rawgeti_idle htable (by simp))
      (.append (ih (by simp [ReadJob.table?])) (.idleLine (fun _ => rfl) .done))) (ih' ht)

/-- A value that is put nowhere in the struct. -/
theorem Reads.idle {mode : ReadMode} {spelling : String} {place : Place} {index : StackIndex}
    {n n' : Nat} {code : Code} (h : Reads ctx m (.value mode spelling place index) n code n')
    (hp : place.selfPath? = none) : code.Idle := by
  refine (h.deeds (by simp [ReadJob.table?])).mono fun d hd => ?_
  obtain ⟨path, hpath, -⟩ := hd
  rw [ReadJob.place, hp] at hpath
  cases hpath

/-! ## Callback fields -/

theorem ArgumentsPushed.idle {i : Nat} {params : List String} {n n' : Nat} {code : Code}
    (h : ArgumentsPushed ctx m i params n code n') : code.Idle := by
  induction h with
  | nil => exact .done
  | cons head _ ih => exact .append head.idle ih

theorem ReturnsZero.idle {code : Code} (h : ReturnsZero code) : code.Idle := by
  cases h with
  | void | literal => exact .idleLine (fun _ => rfl) .done
  | stored => exact .idleLines (by simp [Line.deeds, Expr.calls])

theorem ResultAnswered.idle {result : String} {category : Category} {code : Code}
    (h : ResultAnswered ctx m result category code) : code.Idle := by
  cases h with
  | converted _ inside =>
    exact .idleLine (fun _ => rfl) (.append (inside.idle rfl) (.idleLine (fun _ => rfl)
      (.idleLine (fun _ => rfl) .done)))
  | zero _ _ hz => exact hz.idle
  | void _ => exact .done

theorem Dispatches.idle {p : DispatcherPieces} {site result : String} {category : Category}
    {params : List String} (hd : Dispatches ctx m result category params p) :
    (p.body ctx site result category params.length).Idle := by
  obtain ⟨n, n', harguments⟩ := hd.arguments
  have hgap : (resultGap result category).Idle := by
    unfold resultGap
    split
    · exact .idleLine (fun _ => rfl) .done
    · exact .done
  have hcalling : (p.calling ctx site result category params.length).Idle :=
    .append hgap (.branch rfl (.append (.idleLine (fun _ => rfl) (.idleLine (fun _ => rfl)
      (.idleLine (fun _ => rfl) .done))) hd.failed.idle) .done hd.answer.idle)
  exact .branch rfl hd.unused.idle .done (.idleLine (fun _ => rfl)
    (.branch rfl (.idleLine (fun _ => rfl) hd.overflow.idle) .done
      (.idleLine (fun _ => rfl) (.append harguments.idle hcalling))))

theorem trampolineCode_idle (owner field result : String) (category : Category) (params : String)
    (nargs entry : Nat) : (trampolineCode owner field result category params nargs entry).Idle := by
  refine .block (.idleLine (fun site => ?_) .done) .done
  split <;> simp [Line.deeds, Expr.calls, Call.deeds, Arg.filled?]

theorem poolCode_idle (owner field result : String) (category : Category) (params : String)
    (nargs : Nat) : (poolCode owner field result category params nargs).Idle := by
  have hblank : (Code.ofLines [.blank]).Idle := .idleLine (fun _ => rfl) .done
  have hpool : ∀ c ∈ (List.range poolSize).map
      (trampolineCode owner field result category params nargs), c.Idle := by
    intro c hc
    obtain ⟨entry, -, rfl⟩ := List.mem_map.mp hc
    exact trampolineCode_idle _ _ _ _ _ _ entry
  refine .append hblank (.append (.seq hpool) (.append (.idleLines (by simp [Line.deeds]))
    (.append (.block (.idleLines ?_) .done) hblank)))
  intro l hl site
  obtain ⟨entry, -, rfl⟩ := List.mem_map.mp hl
  rfl

/-- **The dispatcher and the trampolines of a callback field do none of this.** -/
theorem trampolines_idle {owner : String} {field : Field} {s s' : Scratch} {u : Unit} {code : Code}
    (h : trampolines ctx owner field s = (.written u code, s')) : code.Idle := by
  obtain ⟨f, category, declared, params, p, -, -, hd, rfl⟩ := trampolines_written h
  exact .block hd.idle (poolCode_idle _ _ _ _ _ _)

end

end LuaGlue
