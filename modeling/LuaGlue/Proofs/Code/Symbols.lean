import LuaGlue.Code.Basic

/-!
# What a text mentions

`code.mentions` lists in the order of the text where a symbol is referred to, declared or defined.
Statements about linkage are statements about such lists: `Resolves known ms` says that whatever
`ms` refers to is in `known` or was introduced before, by a declaration or a definition.

Calls of converters are the only references that stand at arbitrary places, since any value may
contain a bound struct. What is left of a list without them, its *outline*, is known in advance for
every piece of generated code; as all converters are declared at the beginning of a file, it is enough
that outlines resolve (`Resolves.of_outline`).
-/

set_option autoImplicit false

namespace LuaGlue

inductive Mention where
  | refers (s : Symbol)
  | declares (s : Symbol)
  | defines (s : Symbol)
  deriving DecidableEq, Repr

/-! ## The mentions of a text -/

def Callee.symbols : Callee → List Symbol
  | .generated s => [s]
  | .api _ | .support _ | .libc _ | .native _ => []

def Arg.symbols : Arg → List Symbol
  | .symbol s | .slotEntry s _ => [s]
  | _ => []

def Call.symbols (c : Call) : List Symbol := c.callee.symbols ++ c.args.flatMap Arg.symbols

def Cond.symbols : Cond → List Symbol
  | .holds c | .fails c => c.symbols
  | _ => []

def Expr.symbols : Expr → List Symbol
  | .call c => c.symbols
  | .cast _ e | .target e => e.symbols
  | .choose c yes no => c.symbols ++ (yes.symbols ++ no.symbols)
  | .entry table _ => [table]
  | .value _ | .address _ | .text _ => []

/-- An item of an enumeration gives a pool of slots its number; an item of a table refers to the
function that is entered. -/
def Symbol.asItem : Symbol → Mention
  | .slot owner field => .defines (.slot owner field)
  | s => .refers s

def Line.mentions : Line → List Mention
  | .call c | .discard c => c.symbols.map .refers
  | .assign _ e | .declare _ e | .ret e => e.symbols.map .refers
  | .onlyIf c l => c.symbols.map .refers ++ l.mentions
  | .prototype _ f _ => [.declares f]
  | .functionType _ f _ => [.defines f]
  | .item s => [s.asItem]
  | .registration _ f => [.refers f]
  | .unused _ | .retVoid | .disown _ | .placeholder _ | .directive _ | .blank | .text _ => []

def Head.mentions : Head → List Mention
  | .define _ f _ | .table _ f _ => [.defines f]
  | .bare | .count .. | .text _ => []

namespace Code

/-- The mentions of a text; a function's definition comes before its body. -/
def mentions : Code → List Mention
  | done => []
  | line l next => l.mentions ++ next.mentions
  | block head body _ next => head.mentions ++ (body.mentions ++ next.mentions)
  | branch c yes no next =>
    c.symbols.map .refers ++ (yes.mentions ++ (no.mentions ++ next.mentions))

@[simp] theorem mentions_done : done.mentions = [] := rfl

theorem mentions_block (head : Head) (body : Code) (ending : Ending) (next : Code) :
    (block head body ending next).mentions = head.mentions ++ (body.mentions ++ next.mentions) := rfl

@[simp] theorem mentions_append (a b : Code) : (a ++ b).mentions = a.mentions ++ b.mentions := by
  induction a with
  | done => rfl
  | line l next ih => simp [mentions, ih]
  | block head body ending next _ ih => simp [mentions, ih]
  | branch c yes no next _ _ ih => simp [mentions, ih]

@[simp] theorem mentions_ofLines (ls : List Line) :
    (ofLines ls).mentions = ls.flatMap Line.mentions := by
  induction ls with
  | nil => rfl
  | cons l rest ih => simp [ofLines, mentions, ih]

@[simp] theorem mentions_seq (cs : List Code) : (seq cs).mentions = cs.flatMap mentions := by
  induction cs with
  | nil => rfl
  | cons c rest ih => simp [seq, ih]

theorem mentions_blockOf (head : Head) (body : Code) (ending : Ending) :
    (blockOf head body ending).mentions = head.mentions ++ body.mentions := by
  simp [blockOf, mentions]

theorem mentions_branchOf (c : Cond) (yes no : Code) :
    (branchOf c yes no).mentions = c.symbols.map .refers ++ (yes.mentions ++ no.mentions) := by
  simp [branchOf, mentions]

end Code

/-! ## References that resolve -/

/-- The symbol a declaration or a definition makes known. -/
def Mention.introduced? : Mention → Option Symbol
  | .refers _ => none
  | .declares s | .defines s => some s

/-- What may be referred to. -/
abbrev Known := Symbol → Prop

/-- What may be referred to after some mentions. -/
def Known.after (known : Known) (ms : List Mention) : Known := fun s =>
  known s ∨ s ∈ ms.filterMap Mention.introduced?

/-- Everything that is referred to is known or was introduced before. -/
def Resolves : Known → List Mention → Prop
  | _, [] => True
  | known, .refers s :: rest => known s ∧ Resolves known rest
  | known, .declares s :: rest => Resolves (known.after [.declares s]) rest
  | known, .defines s :: rest => Resolves (known.after [.defines s]) rest

section

variable {known known' : Known} {a b ms : List Mention} {s : Symbol}

theorem Known.after_cons (m : Mention) : known.after (m :: ms) = (known.after [m]).after ms := by
  funext s
  cases m <;> simp [Known.after, Mention.introduced?, or_assoc]

@[simp] theorem Known.after_nil : known.after [] = known := by
  funext s
  simp [Known.after]

@[simp] theorem Known.after_refers : known.after [.refers s] = known := by
  funext t
  simp [Known.after, Mention.introduced?]

theorem Known.after_of_defined (h : .defines s ∈ ms) : known.after ms s :=
  .inr (List.mem_filterMap.mpr ⟨_, h, rfl⟩)

theorem Known.after_of_declared (h : .declares s ∈ ms) : known.after ms s :=
  .inr (List.mem_filterMap.mpr ⟨_, h, rfl⟩)

/-- Who knows more can resolve what others can. -/
theorem Resolves.mono (h : Resolves known ms) (hk : ∀ s, known s → known' s) :
    Resolves known' ms := by
  induction ms generalizing known known' with
  | nil => trivial
  | cons m rest ih =>
    have widened (m : Mention) : ∀ s, known.after [m] s → known'.after [m] s :=
      fun s hs => hs.imp_left (hk s)
    cases m with
    | refers s => exact ⟨hk s h.1, ih h.2 hk⟩
    | declares s => exact ih h (widened _)
    | defines s => exact ih h (widened _)

theorem resolves_append : Resolves known (a ++ b) ↔ Resolves known a ∧ Resolves (known.after a) b := by
  induction a generalizing known with
  | nil => simp [Resolves]
  | cons m rest ih =>
    rw [List.cons_append, Known.after_cons]
    cases m with
    | refers s =>
      rw [Known.after_refers]
      show known s ∧ Resolves known (rest ++ b) ↔ (known s ∧ Resolves known rest) ∧ _
      rw [ih, and_assoc]
    | declares s => exact ih
    | defines s => exact ih

theorem Resolves.flatMap {α : Type} {f : α → List Mention} {as : List α}
    (h : ∀ x ∈ as, Resolves known (f x)) : Resolves known (as.flatMap f) := by
  induction as generalizing known with
  | nil => trivial
  | cons x rest ih =>
    rw [List.flatMap_cons]
    refine resolves_append.mpr ⟨h x List.mem_cons_self, ih fun y hy => ?_⟩
    exact (h y (List.mem_cons_of_mem _ hy)).mono fun s hs => .inl hs

theorem resolves_refers {α : Type} {as : List α} {f : α → Symbol} :
    Resolves known (as.map fun a => .refers (f a)) ↔ ∀ a ∈ as, known (f a) := by
  induction as with
  | nil => simp [Resolves]
  | cons a rest ih => simp [Resolves, ih]

theorem Resolves.of_not_refers (h : ∀ s, .refers s ∉ ms) : Resolves known ms := by
  induction ms generalizing known with
  | nil => trivial
  | cons m rest ih =>
    have hrest {known : Known} : Resolves known rest :=
      ih fun s hs => h s (List.mem_cons_of_mem _ hs)
    cases m with
    | refers s => exact absurd List.mem_cons_self (h s)
    | declares s => exact hrest
    | defines s => exact hrest

/-- Read off at any place of the text: what is referred to there is known, or introduced before. -/
theorem resolves_iff : Resolves known ms ↔
    ∀ before s later, ms = before ++ .refers s :: later → known.after before s := by
  constructor
  · rintro h before s later rfl
    exact (resolves_append.mp h).2.1
  · intro h
    induction ms generalizing known with
    | nil => trivial
    | cons m rest ih =>
      -- a place in the rest is a place in the whole, with one mention more before it
      have later (h' : ∀ before s after, m :: rest = before ++ .refers s :: after →
          known.after before s) : Resolves (known.after [m]) rest := by
        apply ih
        rintro before s after rfl
        have hs := h' (m :: before) s after rfl
        rwa [Known.after_cons] at hs
      cases m with
      | refers s =>
        have hknown := h [] s rest rfl
        have hrest := later h
        rw [Known.after_nil] at hknown
        rw [Known.after_refers] at hrest
        exact ⟨hknown, hrest⟩
      | declares s => exact later h
      | defines s => exact later h

end

/-! ## Outlines -/

/-- A reference to a converter. -/
def Mention.isConversion : Mention → Bool
  | .refers (.converter _) => true
  | _ => false

/-- What a text mentions besides the converters it calls. -/
def Code.outline (code : Code) : List Mention := code.mentions.filter (!·.isConversion)

section

variable {known : Known} {ms : List Mention}

theorem Resolves.of_outline (hc : ∀ s, .refers (.converter s) ∈ ms → known (.converter s))
    (h : Resolves known (ms.filter (!·.isConversion))) : Resolves known ms := by
  induction ms generalizing known with
  | nil => trivial
  | cons m rest ih =>
    have hrest : ∀ s, .refers (.converter s) ∈ rest → known (.converter s) :=
      fun s hs => hc s (List.mem_cons_of_mem _ hs)
    have introduced {m' : Mention} (h' : Resolves (known.after [m']) (rest.filter (!·.isConversion))) :
        Resolves (known.after [m']) rest := ih (fun s hs => .inl (hrest s hs)) h'
    by_cases hm : m.isConversion = true
    · rw [List.filter_cons_of_neg (by simp [hm])] at h
      unfold Mention.isConversion at hm
      split at hm
      · -- the outline skips the call, for which its converter has to be known
        rename_i struct
        exact ⟨hc struct List.mem_cons_self, ih hrest h⟩
      · exact absurd hm (by simp)
    · rw [List.filter_cons_of_pos (by simpa using hm)] at h
      cases m with
      | refers s => exact ⟨h.1, ih hrest h.2⟩
      | declares s => exact introduced h
      | defines s => exact introduced h

end

namespace Code

/-- Nothing but converters is referred to, and only such as `known` has. -/
def OnlyConverts (known : String → Prop) (code : Code) : Prop :=
  ∀ m ∈ code.mentions, ∃ struct, m = .refers (.converter struct) ∧ known struct

/-- The text has this outline, and the converters it calls are such as `known` has. -/
structure Outlined (known : String → Prop) (code : Code) (outline : List Mention) : Prop where
  outline_eq : code.outline = outline
  converts : ∀ struct, .refers (.converter struct) ∈ code.mentions → known struct

variable {known : String → Prop} {a b body next code : Code} {ms ms' : List Mention}

theorem OnlyConverts.of_nil (h : code.mentions = []) : code.OnlyConverts known := by
  intro m hm
  rw [h] at hm
  exact absurd hm List.not_mem_nil

theorem OnlyConverts.append (ha : a.OnlyConverts known) (hb : b.OnlyConverts known) :
    (a ++ b).OnlyConverts known := by
  intro m hm
  rw [mentions_append] at hm
  exact (List.mem_append.mp hm).elim (ha m) (hb m)

theorem OnlyConverts.outlined (h : code.OnlyConverts known) : code.Outlined known [] where
  outline_eq := by
    refine List.filter_eq_nil_iff.mpr fun m hm => ?_
    obtain ⟨struct, rfl, -⟩ := h m hm
    simp [Mention.isConversion]
  converts := by
    intro struct hs
    obtain ⟨struct', heq, hk⟩ := h _ hs
    cases heq
    exact hk

namespace Outlined

/-- Code that calls no converter is its own outline. -/
theorem of_mentions (h : code.mentions = ms) (hms : ∀ m ∈ ms, m.isConversion = false) :
    code.Outlined known ms where
  outline_eq := by
    rw [outline, h, List.filter_eq_self]
    intro m hm
    rw [hms m hm]
    rfl
  converts := by
    intro struct hs
    rw [h] at hs
    exact absurd (hms _ hs) (by simp [Mention.isConversion])

theorem append (ha : a.Outlined known ms) (hb : b.Outlined known ms') :
    (a ++ b).Outlined known (ms ++ ms') where
  outline_eq := by
    rw [outline, mentions_append, List.filter_append, ← ha.outline_eq, ← hb.outline_eq]
    rfl
  converts := by
    intro struct hs
    rw [mentions_append] at hs
    exact (List.mem_append.mp hs).elim (ha.converts struct) (hb.converts struct)

theorem blank (h : code.Outlined known ms) :
    (code ++ line .blank .done).Outlined known ms := by
  have hblank : (line .blank .done).Outlined known [] := of_mentions rfl (by simp)
  have h' := h.append hblank
  rwa [List.append_nil] at h'

theorem block {head : Head} {ending : Ending} (hb : body.Outlined known ms)
    (hn : next.Outlined known ms') :
    (block head body ending next).Outlined known (head.mentions ++ (ms ++ ms')) where
  outline_eq := by
    have hhead : head.mentions.filter (!·.isConversion) = head.mentions := by
      cases head <;> rfl
    rw [outline, mentions_block, List.filter_append, List.filter_append, hhead, ← hb.outline_eq,
      ← hn.outline_eq]
    rfl
  converts := by
    intro struct hs
    rw [mentions_block] at hs
    rcases List.mem_append.mp hs with hs | hs
    · cases head <;> simp [Head.mentions] at hs
    · exact (List.mem_append.mp hs).elim (hb.converts struct) (hn.converts struct)

/-- What is in the text is in the outline, or is the call of a converter. -/
theorem mem_or (h : code.Outlined known ms) {m : Mention} (hm : m ∈ code.mentions) :
    m ∈ ms ∨ m.isConversion = true := by
  by_cases hc : m.isConversion = true
  · exact .inr hc
  · rw [← h.outline_eq]
    exact .inl (List.mem_filter.mpr ⟨hm, by simpa using hc⟩)

/-- An outline that resolves is enough when the converters are known. -/
theorem resolves (h : code.Outlined known ms) {all : Known}
    (hk : ∀ struct, known struct → all (.converter struct)) (hms : Resolves all ms) :
    Resolves all code.mentions :=
  .of_outline (fun s hs => hk s (h.converts s hs)) (by rw [← h.outline_eq] at hms; exact hms)

end Outlined

end Code

end LuaGlue
